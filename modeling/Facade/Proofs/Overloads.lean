import Facade.Proofs.Readability
import Facade.Proofs.SameMarks
import Facade.Source.Line

/-! How overloads read in a facade. Overloads are told apart by what their types are, but the
types are written in short. Two overloads of a container read the same exactly if what sets them
apart is not written, provided that no back-quote in a name hides where the name ends. -/
namespace Facade
open Ambient (Node)
open Source (quoteName)

/-- A type parameter as it can be read. -/
structure TypeParam.Spelled where
  name : String
  bound : Option Spelling

namespace TypeParam

def spelled (p : TypeParam) : Except TypeFault Spelled :=
  match p.bound with
  | none => .ok ⟨p.name, none⟩
  | some bound => bound.spelled.map fun s => ⟨p.name, some s⟩

def Legible (p : TypeParam) : Prop := Quotable p.name ∧ ∀ bound ∈ p.bound, bound.Legible

namespace Spelled

def text (p : Spelled) : String :=
  match p.bound with
  | none => quoteName p.name
  | some bound => quoteName p.name ++ " <: " ++ bound.text

def Legible (p : Spelled) : Prop := Quotable p.name ∧ ∀ bound ∈ p.bound, bound.Legible

/-- What follows the name. -/
def boundText : Option Spelling → List Char
  | none => []
  | some bound => ' ' :: '<' :: ':' :: ' ' :: bound.text.toList

theorem toList_text (p : Spelled) :
    p.text.toList = (quoteName p.name).toList ++ boundText p.bound := by
  obtain ⟨name, bound⟩ := p
  cases bound with
  | none => exact (List.append_nil _).symm
  | some bound => simp [text, boundText]

theorem follows_boundText {r : List Char} (bound : Option Spelling)
    (follows : Follows [',', ']'] r) :
    Follows [' ', ',', ']'] (boundText bound ++ r) := by
  cases bound with
  | none => exact follows.mono (List.subset_cons_self _ _)
  | some bound => exact follows_cons.mpr (.head _)

theorem boundText_inj {bound bound' : Option Spelling} {r u : List Char}
    (legible : ∀ b ∈ bound, b.Legible) (legible' : ∀ b ∈ bound', b.Legible)
    (left : Follows [',', ']'] r) (right : Follows [',', ']'] u)
    (same : boundText bound ++ r = boundText bound' ++ u) : bound = bound' ∧ r = u := by
  cases bound with
  | none =>
    cases bound' with
    | none => exact ⟨rfl, same⟩
    | some b' =>
      obtain rfl : r = _ := same
      exact absurd (follows_cons.mp left) (by decide)
  | some b =>
    cases bound' with
    | none =>
      obtain rfl : _ = u := same
      exact absurd (follows_cons.mp right) (by decide)
    | some b' =>
      simp only [boundText, List.cons_append, List.cons.injEq, true_and] at same
      obtain ⟨rfl, rest⟩ := b.readable (legible b rfl) b' r u (legible' b' rfl) left right same
      exact ⟨rfl, rest⟩

theorem readable (p : Spelled) (legible : p.Legible) : Readable Legible text [',', ']'] p := by
  obtain ⟨name, bound⟩ := p
  rintro ⟨name', bound'⟩ r u legible' left right same
  simp only [toList_text, List.append_assoc] at same
  have breaks : Breaks [' ', ',', ']'] := breaks_ends.mono (by decide)
  obtain ⟨rfl, rest⟩ := readable_quoteName breaks legible.1 name' _ _ legible'.1
    (follows_boundText bound left) (follows_boundText bound' right) same
  obtain ⟨rfl, rfl⟩ := boundText_inj legible.2 legible'.2 left right rest
  exact ⟨rfl, rfl⟩

end Spelled

theorem written_eq (p : TypeParam) : p.written = p.spelled.map (·.text) := by
  obtain ⟨name, bound⟩ := p
  cases bound with
  | none => rfl
  | some bound =>
    simp only [written, spelled, HostType.written_eq]
    cases bound.spelled <;> rfl

theorem Legible.spelled {p : TypeParam} (legible : p.Legible) {s : Spelled}
    (spelled : p.spelled = .ok s) : s.Legible := by
  obtain ⟨name, bound⟩ := p
  cases bound with
  | none =>
    obtain rfl := Except.ok.inj spelled
    exact ⟨legible.1, nofun⟩
  | some bound =>
    obtain ⟨b, inner, rfl⟩ := map_eq_ok.mp spelled
    refine ⟨legible.1, fun other same => ?_⟩
    obtain rfl := Option.some.inj same
    exact bound.legible_spelled (legible.2 bound rfl) inner

end TypeParam

namespace Param

/-- The type of a parameter as it is written, and whether there is a default behind it. -/
def shown (p : Param) : Except TypeFault (String × Bool) :=
  p.type.written.map fun text => (text, p.optional)

def spelled (p : Param) : Except TypeFault (Spelling × Bool) :=
  p.type.spelled.map fun s => (s, p.optional)

/-- A parameter with a given name, written in full. -/
def line (name : String) (shown : String × Bool) : String :=
  quoteName name ++ ": " ++ shown.1 ++ if shown.2 then " = js.native" else ""

theorem written_eq (p : Param) : p.written = p.shown.map (line p.name) := by
  rw [shown, written]
  cases p.type.written <;> rfl

end Param

/-! ## Signatures -/

section Lists

variable {ε α β γ : Type} {f : α → Except ε β} {g : α → Except ε γ} {h : γ → β}

theorem forall_mem_of_mapM {as : List α} {bs : List β} (made : as.mapM f = .ok bs) {P : β → Prop}
    (each : ∀ a ∈ as, ∀ b, f a = .ok b → P b) : ∀ b ∈ bs, P b := by
  induction as generalizing bs with
  | nil =>
    obtain rfl := Except.ok.inj made
    nofun
  | cons a as ih =>
    rw [List.mapM_cons] at made
    obtain ⟨b, first, made⟩ := bind_eq_ok.mp made
    obtain ⟨others, rest, made⟩ := bind_eq_ok.mp made
    obtain rfl := Except.ok.inj made
    rintro c (_ | ⟨_, later⟩)
    · exact each a (.head _) b first
    · exact ih rest (fun a member => each a (.tail _ member)) c later

end Lists

namespace Method

/-- What can be read there. -/
structure Spelled where
  typeParams : List TypeParam.Spelled
  params : List (Spelling × Bool)

def spelled (m : Method) : Except TypeFault Spelled := do
  let typeParams ← m.typeParams.mapM TypeParam.spelled
  let params ← m.params.mapM Param.spelled
  return { typeParams, params }

/-- No name in the type parameters or in the types of the parameters has a back-quote in it. -/
structure Legible (m : Method) : Prop where
  typeParams : ∀ p ∈ m.typeParams, p.Legible
  params : ∀ p ∈ m.params, p.type.Legible

structure Spelled.Legible (s : Spelled) : Prop where
  typeParams : ∀ p ∈ s.typeParams, p.Legible
  params : ∀ p ∈ s.params, p.1.Legible

theorem Legible.spelled {m : Method} (legible : m.Legible) {s : Spelled}
    (spelled : m.spelled = .ok s) : s.Legible := by
  obtain ⟨typeParams, first, spelled⟩ := bind_eq_ok.mp spelled
  obtain ⟨params, second, spelled⟩ := bind_eq_ok.mp spelled
  obtain rfl := Except.ok.inj spelled
  constructor
  · exact forall_mem_of_mapM first fun p member s inner =>
      (legible.typeParams p member).spelled inner
  · refine forall_mem_of_mapM second fun p member shown made => ?_
    obtain ⟨s, inner, rfl⟩ := map_eq_ok.mp made
    exact p.type.legible_spelled (legible.params p member) inner

end Method

end Facade
