import Facade.Proofs.Coherence
import Facade.Proofs.TextLines
import Mathlib.Data.List.Nodup

/-! The objects that a package defines. It has one for each object among its members and one more
for what is left in it. The names of the former are told apart by the tree, but the last one is
made up when the package is written, and nothing keeps it from the others. -/
namespace Facade
open Ambient (Node)
open Source (afterMargin opensBlock beginsWith beginsWith_apart beginsWith_append
  beginsWith_objectLine otherWords quoteName objectLine fileHeader packageTitle globalMark)

/-! ## Reading objects -/

namespace Source

/-- The definition of an object that a line begins, without its brace. -/
def objectHeader? (line : String) : Option String :=
  if beginsWith ["object "] (afterMargin line) then
    some (String.ofList
      (if opensBlock line then (afterMargin line).dropLast.dropLast else afterMargin line))
  else none

/-- The objects that are defined directly in the outermost blocks, if some blocks are open. -/
def topObjects : Nat → List String → List String
  | _, [] => []
  | depth, line :: rest =>
      (if depth = 1 then (objectHeader? line).toList else []) ++
        topObjects ((nest? depth line).getD 0) rest

end Source

/-- The definition of an object that is on a line, as `objectHeader?` reads it. -/
def LineContent.objectHeader? : LineContent → Option String
  | .plain text => if beginsWith ["object "] text.toList then some text else none
  | .opening first => if beginsWith ["object "] first.header.toList then some first.header else none
  | .global _ | .closing | .member _ _ => none

def SheetLine.topObjects : Nat → List SheetLine → List String
  | _, [] => []
  | depth, line :: rest =>
      (if depth = 1 then line.content.objectHeader?.toList else []) ++
        topObjects ((line.nest? depth).getD 0) rest

open Source (objectHeader?)

namespace Sheet

variable {depth : Nat} {shown others : List String} {sheet rest : Sheet}

/-- What a sheet shows of objects where so many blocks are open, whatever follows it. -/
def Tops (depth : Nat) (shown : List String) (sheet : Sheet) : Prop :=
  ∀ lines, sheet = .ok lines → ∀ after,
    SheetLine.topObjects depth (lines ++ after) = shown ++ SheetLine.topObjects depth after

theorem Tops.append (first : Tops depth shown sheet) (second : Tops depth others rest) :
    Tops depth (shown ++ others) (sheet.append rest) := by
  intro all made after
  obtain ⟨front, here, back, there, rfl⟩ := append_eq_ok.mp made
  rw [List.append_assoc, first front here, second back there, List.append_assoc]

theorem Tops.bind {α : Type} {made : Except TypeFault α} {sheets : α → Sheet}
    (each : ∀ whole, made = .ok whole → Tops depth shown (sheets whole)) :
    Tops depth shown (made >>= sheets) := forall_lines_bind each

/-- Neither the depth of a line nor the path of an annotation matters. -/
theorem Tops.map {f : SheetLine → SheetLine} (nest : ∀ line depth, (f line).nest? depth =
    line.nest? depth) (header : ∀ line, (f line).content.objectHeader? =
    line.content.objectHeader?) (tops : Tops depth shown sheet) :
    Tops depth shown (sheet.map (List.map f)) := by
  have kept (lines after : List SheetLine) (depth : Nat) :
      SheetLine.topObjects depth (lines.map f ++ after) =
        SheetLine.topObjects depth (lines ++ after) := by
    induction lines generalizing depth with
    | nil => rfl
    | cons line lines ih =>
      rw [List.map_cons, List.cons_append, List.cons_append, SheetLine.topObjects,
        SheetLine.topObjects, nest, header, ih]
  intro lines made after
  obtain ⟨inner, here, rfl⟩ := map_eq_ok.mp made
  rw [kept]
  exact tops inner here after

theorem Tops.under (tops : Tops depth shown sheet) (name : String) :
    Tops depth shown (sheet.under name) := by
  refine tops.map (fun line depth => ?_) fun line => ?_ <;>
  · obtain ⟨_, content⟩ := line
    cases content <;> rfl

/-- The header of a block stands outside of it. -/
theorem Tops.enclosed (inside : Tops (depth + 1) shown sheet) (opening : Opening) :
    Tops depth ((if depth = 1 then (LineContent.opening opening).objectHeader?.toList else []) ++
      shown) (Sheet.enclosed opening sheet) := by
  intro all made after
  obtain ⟨body, here, rfl⟩ := enclosed_eq_ok.mp made
  rw [List.cons_append, SheetLine.topObjects, SheetLine.nest?_opening, Option.getD_some,
    List.append_assoc, inside body here, List.cons_append, SheetLine.topObjects,
    SheetLine.nest?_closing, Option.getD_some, List.append_assoc]
  simp [LineContent.objectHeader?]

/-- Blocks that are open around lines change nothing for them. -/
theorem nested?_add {opens closes : Bool} {low high : Nat} (around : Nat)
    (made : nested? opens closes low = some high) :
    nested? opens closes (around + low) = some (around + high) := by
  cases opens with
  | true =>
    obtain rfl := Option.some.inj made
    rfl
  | false =>
    cases closes with
    | true =>
      cases low with
      | zero => contradiction
      | succ low =>
        obtain rfl := Option.some.inj made
        rfl
    | false =>
      obtain rfl := Option.some.inj made
      rfl

/-- Where two blocks are open around a sheet, it has nothing to show. -/
theorem Balanced.tops (balanced : Balanced sheet) (depth : Nat) : Tops (depth + 2) [] sheet := by
  have below (lines after : List SheetLine) (low high : Nat)
      (made : lines.foldlM SheetLine.nest? low = some high) :
      SheetLine.topObjects (depth + 2 + low) (lines ++ after) =
        SheetLine.topObjects (depth + 2 + high) after := by
    induction lines generalizing low with
    | nil =>
      obtain rfl := Option.some.inj made
      rfl
    | cons line lines ih =>
      obtain ⟨middle, first, others⟩ := Option.bind_eq_some_iff.mp made
      have nested : line.nest? (depth + 2 + low) = some (depth + 2 + middle) :=
        nested?_add (depth + 2) first
      rw [List.cons_append, SheetLine.topObjects, if_neg (by omega), nested, Option.getD_some,
        List.nil_append]
      exact ih middle others
  intro lines made after
  exact below lines after 0 0 (balanced lines made 0)

end Sheet

section Members

variable {outputPackage : String} {members : List Symbol}

end Members

namespace Sheet

variable {depth : Nat} {body : Sheet} {outputPackage title : String} {members : List Symbol}
  {mark : LineContent}

end Sheet

namespace Container

variable {outputPackage : String}

end Container

end Facade
