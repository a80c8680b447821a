import Facade.Note

/-! The report of an import: its notes, and the console lines written so far. Notes reach
the console at once in a verbose report, and in the final complaint in any case. -/
namespace Facade

structure Report where
  verbose : Bool
  notes : List Note := []
  console : List String := []

namespace Report

def sick (r : Report) : Bool := !r.notes.isEmpty

def info (r : Report) (words : List String) : Report :=
  if r.verbose then { r with console := r.console ++ [" ".intercalate words] } else r

def note (r : Report) (n : Note) : Report :=
  { r with notes := r.notes ++ [n] }.info [n.text]

def noteAll (r : Report) (notes : List Note) : Report := notes.foldl note r

@[simp] theorem notes_info (r : Report) (words : List String) : (r.info words).notes = r.notes := by
  unfold info
  split <;> rfl

theorem notes_noteAll (r : Report) (notes : List Note) :
    (r.noteAll notes).notes = r.notes ++ notes := by
  induction notes generalizing r with
  | nil => simp only [noteAll, List.foldl_nil, List.append_nil]
  | cons n notes ih =>
    have first : (r.note n).notes = r.notes ++ [n] := by simp only [note, notes_info]
    have rest := ih (r.note n)
    simp only [noteAll, List.foldl_cons] at rest ⊢
    simp only [rest, first, List.append_assoc, List.singleton_append]

def complaint (notes : List Note) : List String :=
  if notes.isEmpty then []
  else
    String.ofList (List.replicate 60 '*') ::
      (toString notes.length ++ " declaration(s) could not be imported faithfully:") ::
      notes.map fun n => "  - " ++ n.text

def complain (r : Report) : Report := { r with console := r.console ++ complaint r.notes }

end Report

def consoleText (lines : List String) : String := String.join (lines.map (· ++ "\n"))

end Facade
