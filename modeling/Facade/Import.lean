import Facade.Import.Declaration
import Facade.Report
import Facade.Source.Printing

/-! A whole import: the tree of the declarations, the report on it, and its source text. -/
namespace Facade
open Ambient (Node)

def defaultPackage : String := "importedjs"

structure Imported where
  outcome : Outcome
  report : Report

/-- The report ends with how much there is at the top. -/
def importReported (verbose : Bool) (declarations : List Node) : Imported :=
  let outcome := importTree declarations
  let noted := Report.noteAll { verbose } outcome.notes
  let count := toString outcome.container.members.length
  { outcome
    report := match outcome.fault with
      | none => noted.info ["Imported", count, "top-level symbol(s)"]
      | some _ => noted }

theorem notes_importReported (verbose : Bool) (declarations : List Node) :
    (importReported verbose declarations).report.notes = (importTree declarations).notes := by
  unfold importReported
  dsimp only
  split <;> simp [Report.notes_noteAll]

/-- The source text of a tree, as a file. -/
def Container.printed (c : Container) (outputPackage : String) : Printed :=
  (Symbol.container c).printed outputPackage

end Facade
