import Facade.Proofs.Layout
import Facade.Proofs.Mending

/-! From the lines of a container to its text. What a container adds to a text is read back line
by line if no name is broken. That is so where a fault ends the printing as well, since a mended tree
has no names of its own. -/
namespace Facade
open Source (Unbroken)

/-! ## Names in mended trees -/

theorem Method.types_mended (m : Method) : m.mended.types ⊆ .any :: m.types := by
  unfold mended
  split
  · exact List.subset_cons_self _ _
  · exact List.cons_subset_cons _ (List.nil_subset _)

theorem Symbol.types_mended (s : Symbol) : s.mended.types ⊆ .any :: s.types := by
  cases s with
  | comment text | container c => exact List.nil_subset _
  | field name type =>
    unfold mended Source.mendedType
    split
    · exact List.subset_cons_self _ _
    · exact List.cons_subset_cons _ (List.nil_subset _)
  | method m => exact m.types_mended

namespace Container

variable {c e : Container}

theorem head_mended (c : Container) :
    c.mended.head.typeParams ⊆ c.head.typeParams ∧ c.mended.head.parents ⊆ c.head.parents := by
  obtain ⟨head, members, index, companion⟩ := c
  cases head with
  | package name | object name => exact ⟨List.Subset.refl _, List.Subset.refl _⟩
  | classOrTrait info =>
    unfold mended Head.mended ClassHead.mended
    dsimp only
    split
    · exact ⟨List.Subset.refl _, List.Subset.refl _⟩
    · exact ⟨List.nil_subset _, List.nil_subset _⟩

theorem types_mended (c : Container) : c.mended.types ⊆ .any :: c.types := by
  intro type listed
  simp only [Container.types, List.mem_append, List.mem_cons, members_mended,
    Symbol.mendedAll_eq] at listed ⊢
  rcases listed with (parent | bound) | inner
  · exact .inr (.inl (.inl (c.head_mended.2 parent)))
  · obtain ⟨p, there, given⟩ := TypeParam.mem_types.mp bound
    exact .inr (.inl (.inr (TypeParam.mem_types.mpr ⟨p, c.head_mended.1 there, given⟩)))
  · obtain ⟨_, member, there⟩ := List.mem_flatMap.mp inner
    obtain ⟨s, own, rfl⟩ := List.mem_map.mp member
    rcases List.mem_cons.mp (s.types_mended there) with same | kept
    · exact .inl same
    · exact .inr (.inr (List.mem_flatMap.mpr ⟨s, own, kept⟩))

end Container

end Facade
