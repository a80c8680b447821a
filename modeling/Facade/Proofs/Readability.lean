import Facade.Proofs.Spelling

/-! Written types can be read back. What may follow a name cannot be part of it, so that the
text itself says where each name ends; what may follow a type is neither a bracket nor a star,
so that arguments and stars belong to the type before them. -/
namespace Facade
open Source (quoteName plainWord plainTail wordStart wordRest)

/-- A text goes on with one of these characters, or it is over. -/
def Follows (ends rest : List Char) : Prop := ∀ c ∈ rest.head?, c ∈ ends

theorem follows_nil (ends : List Char) : Follows ends [] := nofun

theorem follows_cons {ends rest : List Char} {c : Char} : Follows ends (c :: rest) ↔ c ∈ ends := by
  simp [Follows]

theorem Follows.mono {ends more rest : List Char} (follows : Follows ends rest)
    (included : ends ⊆ more) : Follows more rest := fun c first => included (follows c first)

/-- Of two texts that begin with an item each and are the same, the items are the same. -/
def Readable {α : Type} (ok : α → Prop) (text : α → String) (ends : List Char) (a : α) : Prop :=
  ∀ (b : α) (r u : List Char), ok b → Follows ends r → Follows ends u →
    (text a).toList ++ r = (text b).toList ++ u → a = b ∧ r = u

/-! ## Names -/

theorem plainTail_cons {c : Char} {rest : List Char} :
    plainTail (c :: rest) = true ↔
      c = '\n' ∧ rest = [] ∨ wordRest c = true ∧ plainTail rest = true := by
  by_cases last : c = '\n' ∧ rest = []
  · obtain ⟨rfl, rfl⟩ := last
    simp [plainTail]
  · rw [plainTail.eq_3 c rest fun first none => last ⟨first, none⟩, Bool.and_eq_true]
    simp only [last, false_or]

theorem plainTail_of_plainWord {word : List Char} (plain : plainWord word = true) :
    plainTail word = true := by
  cases word with
  | nil => contradiction
  | cons c rest =>
    obtain ⟨first, others⟩ := (Bool.and_eq_true _ _).mp plain
    have inside : wordRest c = true := by simp only [wordRest, first, Bool.true_or]
    exact plainTail_cons.mpr (.inr ⟨inside, others⟩)

/-- None of these characters occurs in a word or begins a quoted name. -/
def Breaks (ends : List Char) : Prop := ∀ c ∈ ends, wordRest c = false ∧ c ≠ '\n' ∧ c ≠ '\x60'

theorem Breaks.mono {ends more : List Char} (breaks : Breaks more) (included : ends ⊆ more) :
    Breaks ends := fun c member => breaks c (included member)

theorem not_mem_of_plainTail {ends word : List Char} {c : Char} (breaks : Breaks ends)
    (plain : plainTail (c :: word) = true) : c ∉ ends := by
  intro member
  obtain ⟨outside, other, _⟩ := breaks c member
  rcases plainTail_cons.mp plain with ⟨rfl, _⟩ | ⟨inside, _⟩
  · contradiction
  · rw [outside] at inside
    contradiction

theorem plainTail_append_inj {ends first second r u : List Char} (breaks : Breaks ends)
    (plain : plainTail first = true) (plain' : plainTail second = true) (left : Follows ends r)
    (right : Follows ends u) (same : first ++ r = second ++ u) : first = second ∧ r = u := by
  induction first generalizing second with
  | nil =>
    cases second with
    | nil => exact ⟨rfl, same⟩
    | cons c second =>
      obtain rfl : r = c :: (second ++ u) := same
      exact absurd (follows_cons.mp left) (not_mem_of_plainTail breaks plain')
  | cons c first ih =>
    cases second with
    | nil =>
      obtain rfl : c :: (first ++ r) = u := same
      exact absurd (follows_cons.mp right) (not_mem_of_plainTail breaks plain)
    | cons c' second =>
      obtain ⟨rfl, rest⟩ := List.cons.inj same
      rcases plainTail_cons.mp plain with ⟨rfl, rfl⟩ | ⟨inside, plain⟩
      · rcases plainTail_cons.mp plain' with ⟨_, rfl⟩ | ⟨inside, _⟩
        · exact ⟨rfl, rest⟩
        · exact absurd inside (by decide)
      · rcases plainTail_cons.mp plain' with ⟨rfl, _⟩ | ⟨_, plain'⟩
        · exact absurd inside (by decide)
        · obtain ⟨rfl, rfl⟩ := ih plain plain' rest
          exact ⟨rfl, rfl⟩

/-- A name is written in back-quotes, or it is a plain word that stands for itself. -/
theorem toList_quoteName (name : String) :
    (quoteName name).toList = '\x60' :: (name.toList ++ ['\x60']) ∨
      (quoteName name).toList = name.toList ∧ plainWord name.toList = true := by
  unfold quoteName
  split
  · left
    simp [String.toList_append]
  · next plain =>
    right
    simp only [Bool.or_eq_true, Bool.not_eq_true', not_or, Bool.not_eq_false] at plain
    exact ⟨rfl, plain.2⟩

theorem head_quoteName (name : String) :
    ∃ c rest, (quoteName name).toList = c :: rest ∧ (c = '\x60' ∨ wordStart c = true) := by
  rcases toList_quoteName name with quoted | ⟨bare, plain⟩
  · exact ⟨_, _, quoted, .inl rfl⟩
  · rw [bare]
    cases chars : name.toList with
    | nil =>
      rw [chars] at plain
      contradiction
    | cons c rest =>
      rw [chars] at plain
      exact ⟨c, rest, rfl, .inr ((Bool.and_eq_true _ _).mp plain).1⟩

theorem ne_quoted_append {word r u : List Char} (plain : plainWord word = true) :
    word ++ r ≠ '\x60' :: u := by
  cases word with
  | nil => contradiction
  | cons c rest =>
    intro same
    obtain rfl : c = '\x60' := (List.cons.inj same).1
    exact absurd plain (by simp [plainWord, wordStart])

/-- A delimiter ends what it does not occur in. -/
theorem append_delimiter_inj {c : Char} {first second r u : List Char} (absent : c ∉ first)
    (absent' : c ∉ second) (same : first ++ c :: r = second ++ c :: u) :
    first = second ∧ r = u := by
  induction first generalizing second with
  | nil =>
    cases second with
    | nil => exact ⟨rfl, (List.cons.inj same).2⟩
    | cons d second =>
      obtain ⟨rfl, _⟩ := List.cons.inj same
      exact absurd (.head _) absent'
  | cons d first ih =>
    cases second with
    | nil =>
      obtain ⟨rfl, _⟩ := List.cons.inj same
      exact absurd (.head _) absent
    | cons d' second =>
      obtain ⟨rfl, rest⟩ := List.cons.inj same
      obtain ⟨rfl, rfl⟩ := ih (fun member => absent (.tail _ member))
        (fun member => absent' (.tail _ member)) rest
      exact ⟨rfl, rfl⟩

theorem readable_quoteName {ends : List Char} {name : String} (breaks : Breaks ends)
    (quotable : Quotable name) : Readable Quotable quoteName ends name := by
  intro other r u quotable' left right same
  rcases toList_quoteName name with quoted | ⟨bare, plain⟩ <;>
    rcases toList_quoteName other with quoted' | ⟨bare', plain'⟩
  · rw [quoted, quoted', List.cons_append, List.cons_append, List.append_assoc,
      List.append_assoc] at same
    have inner : name.toList ++ '\x60' :: r = other.toList ++ '\x60' :: u := (List.cons.inj same).2
    obtain ⟨chars, rest⟩ := append_delimiter_inj quotable quotable' inner
    exact ⟨String.toList_inj.mp chars, rest⟩
  · rw [quoted, bare'] at same
    exact absurd same.symm (ne_quoted_append plain')
  · rw [bare, quoted'] at same
    exact absurd same (ne_quoted_append plain)
  · rw [bare, bare'] at same
    obtain ⟨chars, rest⟩ := plainTail_append_inj breaks (plainTail_of_plainWord plain)
      (plainTail_of_plainWord plain') left right same
    exact ⟨String.toList_inj.mp chars, rest⟩

/-! ## Sequences -/

section Sequences

variable {α : Type} {ok : α → Prop} {text : α → String} {ends : List Char} {c : Char}
variable {more r u : List Char}

theorem toList_intercalate_cons (separator first : String) (rest : List String) :
    (separator.intercalate (first :: rest)).toList =
      first.toList ++ rest.flatMap fun t => separator.toList ++ t.toList := by
  induction rest generalizing first with
  | nil => simp
  | cons second rest ih =>
    have next := ih second
    simp only [String.toList_intercalate, List.map_cons] at next
    simp only [String.toList_intercalate, List.map_cons, List.intercalate_cons_cons, next,
      List.flatMap_cons, List.append_assoc]

/-- The items after the first one, each behind a separator. -/
def separated (text : α → String) (c : Char) (more : List Char) (items : List α) : List Char :=
  items.flatMap fun a => c :: more ++ (text a).toList

theorem follows_separated (items : List α) (follows : Follows ends r) :
    Follows (c :: ends) (separated text c more items ++ r) := by
  cases items with
  | nil => exact follows.mono (List.subset_cons_self _ _)
  | cons a items => exact follows_cons.mpr (.head _)

/-- Items are counted by the separators between them, if what follows them is none. -/
theorem separated_inj (fresh : c ∉ ends) {first second : List α}
    (each : ∀ a ∈ first, Readable ok text (c :: ends) a) (good : ∀ b ∈ second, ok b)
    (left : Follows ends r) (right : Follows ends u)
    (same : separated text c more first ++ r = separated text c more second ++ u) :
    first = second ∧ r = u := by
  induction first generalizing second with
  | nil =>
    cases second with
    | nil => exact ⟨rfl, same⟩
    | cons b second =>
      obtain rfl : r = _ := same
      exact absurd (follows_cons.mp left) fresh
  | cons a first ih =>
    cases second with
    | nil =>
      obtain rfl : _ = u := same
      exact absurd (follows_cons.mp right) fresh
    | cons b second =>
      simp only [separated, List.flatMap_cons, List.append_assoc] at same
      obtain ⟨rfl, rest⟩ := each a (.head _) b _ _ (good b (.head _))
        (follows_separated first left) (follows_separated second right)
        (List.append_cancel_left same)
      obtain ⟨rfl, rfl⟩ := ih (fun a member => each a (.tail _ member))
        (fun b member => good b (.tail _ member)) rest
      exact ⟨rfl, rfl⟩

theorem items_inj (fresh : c ∉ ends) {a b : α} {first second : List α}
    (each : ∀ x ∈ a :: first, Readable ok text (c :: ends) x) (good : ∀ x ∈ b :: second, ok x)
    (left : Follows ends r) (right : Follows ends u)
    (same : (text a).toList ++ (separated text c more first ++ r) =
      (text b).toList ++ (separated text c more second ++ u)) :
    a :: first = b :: second ∧ r = u := by
  -- With a separator before the first item the items are all of one form.
  have framed : separated text c more (a :: first) ++ r =
      separated text c more (b :: second) ++ u := by
    simp only [separated, List.flatMap_cons, List.append_assoc] at same ⊢
    rw [same]
  exact separated_inj fresh each good left right framed

theorem toList_bracketed_cons (text : α → String) (a : α) (rest : List α) :
    (bracketed ((a :: rest).map text)).toList =
      '[' :: ((text a).toList ++ (separated text ',' [' '] rest ++ [']'])) := by
  simp only [bracketed, List.map_cons, String.toList_append, toList_intercalate_cons, separated,
    List.flatMap_map]
  simp

/-- What stands in brackets is closed by one, so that anything may follow but a bracket. -/
theorem bracketed_inj {first second : List α} (each : ∀ a ∈ first, Readable ok text [',', ']'] a)
    (good : ∀ b ∈ second, ok b) (left : '[' ∉ r.head?) (right : '[' ∉ u.head?)
    (same : (bracketed (first.map text)).toList ++ r = (bracketed (second.map text)).toList ++ u) :
    first = second ∧ r = u := by
  cases first with
  | nil =>
    cases second with
    | nil => exact ⟨rfl, same⟩
    | cons b second =>
      rw [toList_bracketed_cons] at same
      obtain rfl : r = _ := same
      exact absurd rfl left
  | cons a first =>
    cases second with
    | nil =>
      rw [toList_bracketed_cons] at same
      obtain rfl : _ = u := same
      exact absurd rfl right
    | cons b second =>
      simp only [toList_bracketed_cons, List.cons_append, List.append_assoc, List.nil_append]
        at same
      obtain ⟨items, rest⟩ := items_inj (by decide : ',' ∉ [']']) each good
        (follows_cons.mpr (List.mem_singleton_self _))
        (follows_cons.mpr (List.mem_singleton_self _)) (List.cons.inj same).2
      exact ⟨items, (List.cons.inj rest).2⟩

end Sequences

/-! ## Types -/

theorem breaks_ends : Breaks ['.', '[', '*', ',', ']', ' '] := by
  intro c member
  simp only [List.mem_cons, List.not_mem_nil, or_false] at member
  rcases member with rfl | rfl | rfl | rfl | rfl | rfl <;> decide

theorem not_follows_quoteName {ends r : List Char} {name : String} (breaks : Breaks ends) :
    ¬ Follows ends ((quoteName name).toList ++ r) := by
  intro follows
  obtain ⟨c, rest, chars, first⟩ := head_quoteName name
  rw [chars, List.cons_append, follows_cons] at follows
  obtain ⟨outside, _, other⟩ := breaks c follows
  rcases first with rfl | start
  · exact other rfl
  · simp [wordRest, start] at outside

theorem toList_path_cons (part : String) (parts : List String) :
    (".".intercalate ((part :: parts).map quoteName)).toList =
      (quoteName part).toList ++ separated quoteName '.' [] parts := by
  simp only [List.map_cons, toList_intercalate_cons, separated, List.flatMap_map]
  rfl

/-- A path ends where nothing but a bracket, a star, a comma or a blank follows. -/
theorem path_inj {first second : List String} {r u : List Char}
    (quotable : ∀ part ∈ first, Quotable part) (quotable' : ∀ part ∈ second, Quotable part)
    (left : Follows ['[', '*', ',', ']', ' '] r) (right : Follows ['[', '*', ',', ']', ' '] u)
    (same : (".".intercalate (first.map quoteName)).toList ++ r =
      (".".intercalate (second.map quoteName)).toList ++ u) : first = second ∧ r = u := by
  have breaks : Breaks ['[', '*', ',', ']', ' '] := breaks_ends.mono (List.subset_cons_self _ _)
  cases first with
  | nil =>
    cases second with
    | nil => exact ⟨rfl, same⟩
    | cons part second =>
      rw [toList_path_cons, List.append_assoc] at same
      obtain rfl : r = _ := same
      exact absurd left (not_follows_quoteName breaks)
  | cons part first =>
    cases second with
    | nil =>
      rw [toList_path_cons, List.append_assoc] at same
      obtain rfl : _ = u := same
      exact absurd right (not_follows_quoteName breaks)
    | cons part' second =>
      simp only [toList_path_cons, List.append_assoc] at same
      exact items_inj (by decide : '.' ∉ ['[', '*', ',', ']', ' '])
        (fun x member => readable_quoteName breaks_ends (quotable x member)) quotable' left right
        same

theorem stars_inj {n m : Nat} {r u : List Char} (left : '*' ∉ r.head?) (right : '*' ∉ u.head?)
    (same : List.replicate n '*' ++ r = List.replicate m '*' ++ u) : n = m ∧ r = u := by
  induction n generalizing m with
  | zero =>
    cases m with
    | zero => exact ⟨rfl, same⟩
    | succ m =>
      obtain rfl : r = _ := same
      exact absurd rfl left
  | succ n ih =>
    cases m with
    | zero =>
      obtain rfl : _ = u := same
      exact absurd rfl right
    | succ m =>
      obtain ⟨rfl, rfl⟩ := ih (List.cons.inj same).2
      exact ⟨rfl, rfl⟩

namespace Spelling

theorem follows_stars {r : List Char} (stars : Nat) (follows : Follows [',', ']'] r) :
    Follows ['*', ',', ']'] (List.replicate stars '*' ++ r) := by
  cases stars with
  | zero => exact follows.mono (List.subset_cons_self _ _)
  | succ stars => exact follows_cons.mpr (.head _)

theorem follows_bracketed {texts : List String} {r : List Char}
    (follows : Follows ['*', ',', ']'] r) :
    Follows ['[', '*', ',', ']', ' '] ((bracketed texts).toList ++ r) := by
  cases texts with
  | nil => exact follows.mono (by decide)
  | cons t texts =>
    rw [← List.map_id (t :: texts), toList_bracketed_cons]
    exact follows_cons.mpr (.head _)

theorem toList_text (parts : List String) (args : List Spelling) (stars : Nat) :
    (text ⟨parts, args, stars⟩).toList = (".".intercalate (parts.map quoteName)).toList ++
      ((bracketed (args.map text)).toList ++ List.replicate stars '*') := by
  simp only [text, texts_eq_map, String.toList_append, String.toList_ofList, List.append_assoc]

mutual

/-- A type ends at a comma, at a closing bracket, or with the text. -/
theorem readable (s : Spelling) (legible : s.Legible) : Readable Legible text [',', ']'] s := by
  obtain ⟨parts, args, stars⟩ := s
  rintro ⟨parts', args', stars'⟩ r u legible' left right same
  obtain ⟨quotable, inside⟩ := legible
  obtain ⟨quotable', inside'⟩ := legible'
  simp only [toList_text, List.append_assoc] at same
  have each := readableAll args inside
  have behind := follows_stars stars left
  have behind' := follows_stars stars' right
  obtain ⟨rfl, arguments⟩ := path_inj quotable quotable' (follows_bracketed behind)
    (follows_bracketed behind') same
  obtain ⟨rfl, ending⟩ := bracketed_inj each (allLegible_iff.mp inside')
    (fun first => absurd (behind _ first) (by decide))
    (fun first => absurd (behind' _ first) (by decide)) arguments
  obtain ⟨rfl, rfl⟩ := stars_inj (fun first => absurd (left _ first) (by decide))
    (fun first => absurd (right _ first) (by decide)) ending
  exact ⟨rfl, rfl⟩

theorem readableAll (args : List Spelling) (legible : AllLegible args) :
    ∀ s ∈ args, Readable Legible text [',', ']'] s := by
  cases args with
  | nil => nofun
  | cons s rest =>
    intro other member
    rcases List.mem_cons.mp member with here | later
    · rw [here]
      exact readable s legible.1
    · exact readableAll rest legible.2 other later

end

/-- What is written of a type tells how it is spelled. -/
theorem text_inj {s t : Spelling} (legible : s.Legible) (legible' : t.Legible)
    (same : s.text = t.text) : s = t := by
  refine (readable s legible t [] [] legible' (follows_nil _) (follows_nil _) ?_).1
  rw [same]

end Spelling

end Facade
