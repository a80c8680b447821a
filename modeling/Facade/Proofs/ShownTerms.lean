import Mathlib
import Facade.Ambient.Term
import Facade.Proofs.Escapes
import Facade.Proofs.Readability

/-! Shown terms are read back. A term begins with a quote, with a parenthesis, or with a bare word,
and only a record goes on with a parenthesis behind its word. Numbers with a fraction are left out,
since several of them are shown alike. -/
namespace Facade.Ambient

/-! ## Bare words -/

/-- A character of a number or a name. -/
def bareChar (c : Char) : Bool := c.isAlphanum || c == '_' || c == '-'

def isBare (word : String) : Bool := !word.toList.isEmpty && word.toList.all bareChar

theorem isBare_iff {word : String} :
    isBare word = true ↔ word.toList ≠ [] ∧ ∀ c ∈ word.toList, bareChar c = true := by
  simp [isBare]

/-- What may follow a bare word. -/
def marks : List Char := ['=', '(', ',', ')']

theorem bareChar_of_mem_marks {c : Char} (mark : c ∈ marks) : bareChar c = false := by
  simp only [marks, List.mem_cons, List.not_mem_nil, or_false] at mark
  rcases mark with rfl | rfl | rfl | rfl <;> rfl

theorem ends_subset_marks : [',', ')'] ⊆ marks := by decide

/-- A bare word ends where a mark follows. -/
theorem bare_append_inj {r u : List Char} {s t : String} (bare : isBare s = true)
    (bare' : isBare t = true) (left : Follows marks r) (right : Follows marks u)
    (same : s.toList ++ r = t.toList ++ u) : s = t ∧ r = u := by
  have stop {rest : List Char} (follows : Follows marks rest) : rest.takeWhile bareChar = [] := by
    cases rest with
    | nil => rfl
    | cons c rest =>
      rw [List.takeWhile_cons, bareChar_of_mem_marks (follows_cons.mp follows)]
      rfl
  have words := congrArg (List.takeWhile bareChar) same
  rw [List.takeWhile_append_of_pos (isBare_iff.mp bare).2,
    List.takeWhile_append_of_pos (isBare_iff.mp bare').2, stop left, stop right, List.append_nil,
    List.append_nil] at words
  rw [words] at same
  exact ⟨String.toList_inj.mp words, List.append_cancel_left same⟩

/-! ## Literals -/

namespace Literal

def isDecimal : Literal → Bool
  | .decimal _ => true
  | _ => false

def isText : Literal → Bool
  | .text _ => true
  | _ => false

theorem mem_toString_int {n : Int} {c : Char} (member : c ∈ (toString n).toList) :
    c = '-' ∨ c.isDigit = true := by
  have digits {m : Nat} (inside : c ∈ m.repr.toList) : c.isDigit = true := by
    rw [Nat.toList_repr] at inside
    exact Nat.isDigit_of_mem_toDigits (by decide) (by decide) inside
  cases n with
  | ofNat m => exact .inr (digits member)
  | negSucc m =>
    have split : (toString (Int.negSucc m)).toList = '-' :: (m + 1).repr.toList :=
      String.toList_append
    rw [split, List.mem_cons] at member
    exact member.imp_right digits

theorem toList_toString_int_ne_nil (n : Int) : (toString n).toList ≠ [] := by
  cases n with
  | ofNat m => exact (Nat.toList_repr (n := m)).trans_ne Nat.toDigits_ne_nil
  | negSucc m =>
    have split : (toString (Int.negSucc m)).toList = '-' :: (m + 1).repr.toList :=
      String.toList_append
    exact split.trans_ne (List.cons_ne_nil _ _)

theorem isBare_toString_int (n : Int) : isBare (toString n) = true := by
  refine isBare_iff.mpr ⟨toList_toString_int_ne_nil n, fun c member => ?_⟩
  rcases mem_toString_int member with rfl | digit
  · rfl
  · simp [bareChar, Char.isAlphanum, digit]

/-- Every literal but a text is shown as a bare word. -/
theorem isBare_shown {literal : Literal} (exact : literal.isDecimal = false)
    (word : literal.isText = false) : isBare literal.shown = true := by
  cases literal with
  | text s => contradiction
  | integer n => exact isBare_toString_int n
  | decimal x => contradiction
  | boolean b => cases b <;> rfl
  | null => rfl

/-- What a bare word is shown for. -/
def ofWord (word : String) : Literal :=
  match word with
  | "True" => .boolean true
  | "False" => .boolean false
  | "None" => .null
  | number => .integer (number.toInt?.getD 0)

/-- The words for the other literals have a letter in common that is not part of a number. -/
theorem toString_int_ne {n : Int} {word : String} (letter : 'e' ∈ word.toList) :
    toString n ≠ word := by
  rintro rfl
  rcases mem_toString_int letter with same | digit <;> contradiction

theorem ofWord_toString_int (n : Int) : ofWord (toString n) = .integer n := by
  rw [ofWord.eq_def]
  split
  · next same => exact absurd same (toString_int_ne (by decide))
  · next same => exact absurd same (toString_int_ne (by decide))
  · next same => exact absurd same (toString_int_ne (by decide))
  · have read : (toString n).toInt? = some n := Int.toInt?_repr n
    rw [read, Option.getD_some]

theorem ofWord_shown {literal : Literal} (exact : literal.isDecimal = false)
    (word : literal.isText = false) : ofWord literal.shown = literal := by
  cases literal with
  | text s => contradiction
  | integer n => exact ofWord_toString_int n
  | decimal x => contradiction
  | boolean b => cases b <;> rfl
  | null => rfl

end Literal

/-! ## Terms -/

namespace Term

/-- A term with bare words for its kinds and its names, and without fractions. -/
inductive Legible : Term → Prop where
  | text (s : String) : Legible (.text s)
  | word {literal : Literal} :
      literal.isDecimal = false → literal.isText = false → Legible (.value literal)
  | sequence {items : List Term} : (∀ item ∈ items, Legible item) → Legible (.sequence items)
  | record {kind : String} {fields : List Field} : isBare kind = true →
      (∀ field ∈ fields, isBare field.name = true) → (∀ field ∈ fields, Legible field.value) →
      Legible (.record kind fields)

end Term

def Field.shown (field : Field) : String := field.name ++ "=" ++ field.value.shown

def Field.Legible (field : Field) : Prop := isBare field.name = true ∧ field.value.Legible

namespace Term

theorem shownItems_eq_map (items : List Term) : shownItems items = items.map shown := by
  induction items with
  | nil => rfl
  | cons item items ih => rw [shownItems, ih, List.map_cons]

theorem shownFields_eq_map (fields : List Field) : shownFields fields = fields.map Field.shown := by
  induction fields with
  | nil => rfl
  | cons field fields ih =>
    obtain ⟨name, value⟩ := field
    exact congrArg ((name ++ "=" ++ value.shown) :: ·) ih

/-- How the text of a term begins. -/
inductive Opening where
  | quote
  | parenthesis
  | word

def Opening.of? (c : Char) : Option Opening :=
  if c = Text.apostrophe ∨ c = Text.doubleQuote then some .quote
  else if c = '(' then some .parenthesis
  else if bareChar c then some .word
  else none

def opening : Term → Opening
  | .value (.text _) => .quote
  | .value _ => .word
  | .sequence _ => .parenthesis
  | .record _ _ => .word

theorem Opening.of?_bareChar {c : Char} (bare : bareChar c = true) : of? c = some .word := by
  have apart {d : Char} (other : bareChar d = false) : c ≠ d := by
    rintro rfl
    rw [other] at bare
    contradiction
  have quotes : ¬ (c = Text.apostrophe ∨ c = Text.doubleQuote) :=
    not_or.mpr ⟨apart (by decide), apart (by decide)⟩
  rw [of?, if_neg quotes, if_neg (apart (by decide)), if_pos bare]

theorem head_of_isBare {word : String} (bare : isBare word = true) (behind : List Char) :
    ∃ c rest, word.toList ++ behind = c :: rest ∧ Opening.of? c = some .word := by
  obtain ⟨some, bareChars⟩ := isBare_iff.mp bare
  obtain ⟨c, rest, chars⟩ := List.exists_cons_of_ne_nil some
  rw [chars] at bareChars ⊢
  exact ⟨c, rest ++ behind, rfl, Opening.of?_bareChar (bareChars c (.head _))⟩

theorem toList_shown_record (kind : String) (fields : List Field) :
    (record kind fields).shown.toList =
      kind.toList ++ '(' :: ((", ".intercalate (fields.map Field.shown)).toList ++ [')']) := by
  rw [shown, shownFields_eq_map]
  simp [String.toList_append]

theorem head_enclose (texts : List String) : ∃ rest, (enclose texts).toList = '(' :: rest := by
  rw [enclose.eq_def]
  split
  · exact ⟨_, by rw [String.toList_append, String.toList_append]; rfl⟩
  · exact ⟨_, by rw [String.toList_append, String.toList_append]; rfl⟩

theorem opening_value {literal : Literal} (word : literal.isText = false) :
    (value literal).opening = .word := by
  cases literal with
  | text s => contradiction
  | integer _ | decimal _ | boolean _ | null => rfl

theorem Legible.head_shown {t : Term} (legible : t.Legible) :
    ∃ c rest, t.shown.toList = c :: rest ∧ Opening.of? c = some t.opening := by
  cases legible with
  | text s =>
    obtain ⟨c, rest, chars, quotes⟩ := Text.head_quoted s
    exact ⟨c, rest, chars, if_pos quotes⟩
  | @word literal exact word =>
    obtain ⟨c, rest, chars, head⟩ := head_of_isBare (literal.isBare_shown exact word) []
    rw [List.append_nil] at chars
    exact ⟨c, rest, chars, opening_value word ▸ head⟩
  | @sequence items each =>
    obtain ⟨rest, chars⟩ := head_enclose (shownItems items)
    exact ⟨'(', rest, chars, rfl⟩
  | record bare _ _ =>
    rw [toList_shown_record]
    exact head_of_isBare bare _

/-- Two texts that are the same begin alike. -/
theorem Legible.opening_eq {t t' : Term} (legible : t.Legible) (legible' : t'.Legible)
    {r u : List Char} (same : t.shown.toList ++ r = t'.shown.toList ++ u) :
    t.opening = t'.opening := by
  obtain ⟨c, rest, chars, head⟩ := legible.head_shown
  obtain ⟨c', rest', chars', head'⟩ := legible'.head_shown
  rw [chars, chars'] at same
  obtain ⟨rfl, _⟩ := List.cons.inj same
  exact Option.some.inj (head.symm.trans head')

/-! ## Sequences -/

section Sequences

variable {α : Type} {ok : α → Prop} {text : α → String} {r u : List Char}

/-- No item begins with a closing parenthesis. -/
def Opens (ok : α → Prop) (text : α → String) : Prop :=
  ∀ a, ok a → ∀ r u, (text a).toList ++ r ≠ ')' :: u

/-- What stands behind the first item of a sequence. -/
def closing (text : α → String) : List α → List Char
  | [] => [',', ')']
  | b :: rest => separated text ',' [' '] (b :: rest) ++ [')']

theorem toList_commas_cons (text : α → String) (a : α) (rest : List α) :
    (", ".intercalate ((a :: rest).map text)).toList =
      (text a).toList ++ separated text ',' [' '] rest := by
  rw [List.map_cons, toList_intercalate_cons, separated, List.flatMap_map]
  rfl

theorem commas_inj {first second : List α} (opens : Opens ok text)
    (each : ∀ a ∈ first, Readable ok text [',', ')'] a) (fine : ∀ a ∈ first, ok a)
    (good : ∀ b ∈ second, ok b)
    (same : (", ".intercalate (first.map text)).toList ++ ')' :: r =
      (", ".intercalate (second.map text)).toList ++ ')' :: u) : first = second ∧ r = u := by
  cases first with
  | nil =>
    cases second with
    | nil => exact ⟨rfl, (List.cons.inj same).2⟩
    | cons b second =>
      rw [toList_commas_cons, List.append_assoc] at same
      exact absurd same.symm (opens b (good b (.head _)) _ _)
  | cons a first =>
    cases second with
    | nil =>
      rw [toList_commas_cons, List.append_assoc] at same
      exact absurd same (opens a (fine a (.head _)) _ _)
    | cons b second =>
      rw [toList_commas_cons, toList_commas_cons, List.append_assoc, List.append_assoc] at same
      obtain ⟨items, rest⟩ := items_inj (by decide : ',' ∉ [')']) each good
        (follows_cons.mpr (.head _)) (follows_cons.mpr (.head _)) same
      exact ⟨items, (List.cons.inj rest).2⟩

theorem toList_enclose_nil : (enclose []).toList = ['(', ')'] := rfl

theorem toList_enclose_cons (text : α → String) (a : α) (rest : List α) :
    (enclose ((a :: rest).map text)).toList = '(' :: ((text a).toList ++ closing text rest) := by
  cases rest with
  | nil => simp [enclose, closing, String.toList_append]
  | cons b rest =>
    have several : enclose ((a :: b :: rest).map text) =
        "(" ++ ", ".intercalate ((a :: b :: rest).map text) ++ ")" := rfl
    rw [several, String.toList_append, String.toList_append, toList_commas_cons]
    simp [closing]

theorem follows_closing (text : α → String) (rest : List α) (r : List Char) :
    Follows [',', ')'] (closing text rest ++ r) := by
  cases rest <;> exact follows_cons.mpr (.head _)

/-- A lone item is followed by a comma without a blank. -/
theorem closing_inj {first second : List α} (each : ∀ a ∈ first, Readable ok text [',', ')'] a)
    (good : ∀ b ∈ second, ok b) (same : closing text first ++ r = closing text second ++ u) :
    first = second ∧ r = u := by
  cases first with
  | nil =>
    cases second with
    | nil => exact ⟨rfl, List.append_cancel_left same⟩
    | cons b second => exact absurd same (by simp [closing, separated])
  | cons a first =>
    cases second with
    | nil => exact absurd same (by simp [closing, separated])
    | cons b second =>
      rw [closing, closing, List.append_assoc, List.append_assoc] at same
      obtain ⟨items, rest⟩ := separated_inj (by decide : ',' ∉ [')']) each good
        (follows_cons.mpr (.head _)) (follows_cons.mpr (.head _)) same
      exact ⟨items, (List.cons.inj rest).2⟩

theorem enclose_inj {first second : List α} (opens : Opens ok text)
    (each : ∀ a ∈ first, Readable ok text [',', ')'] a) (fine : ∀ a ∈ first, ok a)
    (good : ∀ b ∈ second, ok b)
    (same : (enclose (first.map text)).toList ++ r = (enclose (second.map text)).toList ++ u) :
    first = second ∧ r = u := by
  cases first with
  | nil =>
    cases second with
    | nil => exact ⟨rfl, List.append_cancel_left same⟩
    | cons b second =>
      simp only [List.map_nil, toList_enclose_nil, toList_enclose_cons, List.cons_append,
        List.nil_append, List.append_assoc] at same
      exact absurd (List.cons.inj same).2.symm (opens b (good b (.head _)) _ _)
  | cons a first =>
    cases second with
    | nil =>
      simp only [List.map_nil, toList_enclose_nil, toList_enclose_cons, List.cons_append,
        List.nil_append, List.append_assoc] at same
      exact absurd (List.cons.inj same).2 (opens a (fine a (.head _)) _ _)
    | cons b second =>
      rw [toList_enclose_cons, toList_enclose_cons, List.cons_append, List.cons_append,
        List.append_assoc, List.append_assoc] at same
      obtain ⟨rfl, rest⟩ := each a (.head _) b _ _ (good b (.head _)) (follows_closing text first r)
        (follows_closing text second u) (List.cons.inj same).2
      obtain ⟨rfl, rfl⟩ := closing_inj (fun x member => each x (.tail _ member))
        (fun x member => good x (.tail _ member)) rest
      exact ⟨rfl, rfl⟩

end Sequences

/-! ## Reading back -/

theorem Legible.opens : Opens Legible shown := by
  intro t legible r u same
  obtain ⟨c, rest, chars, head⟩ := legible.head_shown
  rw [chars] at same
  obtain ⟨rfl, _⟩ := List.cons.inj same
  contradiction

theorem toList_shown_field (field : Field) (r : List Char) :
    field.shown.toList ++ r = field.name.toList ++ '=' :: (field.value.shown.toList ++ r) := by
  simp [Field.shown, String.toList_append]

theorem opens_field : Opens Field.Legible Field.shown := by
  intro field legible r u same
  obtain ⟨c, rest, chars, head⟩ := head_of_isBare legible.1 ('=' :: (field.value.shown.toList ++ r))
  rw [toList_shown_field, chars] at same
  obtain ⟨rfl, _⟩ := List.cons.inj same
  contradiction

theorem readable_field {field : Field} (bare : isBare field.name = true)
    (value : Readable Legible shown [',', ')'] field.value) :
    Readable Field.Legible Field.shown [',', ')'] field := by
  intro other r u legible left right same
  rw [toList_shown_field, toList_shown_field] at same
  obtain ⟨names, rest⟩ := bare_append_inj bare legible.1 (follows_cons.mpr (by decide))
    (follows_cons.mpr (by decide)) same
  obtain ⟨values, behind⟩ := value other.value r u legible.2 left right (List.cons.inj rest).2
  obtain ⟨name, value⟩ := field
  obtain ⟨name', value'⟩ := other
  exact ⟨congrArg₂ Field.mk names values, behind⟩

/-- A word that goes on with a parenthesis is a kind, and any other is a literal. -/
theorem bare_clash {s t : String} {r u : List Char} (bare : isBare s = true)
    (bare' : isBare t = true) (follows : Follows [',', ')'] r) :
    s.toList ++ r ≠ t.toList ++ '(' :: u := by
  intro same
  obtain ⟨_, rfl⟩ := bare_append_inj bare bare' (follows.mono ends_subset_marks)
    (follows_cons.mpr (by decide)) same
  exact absurd (follows_cons.mp follows) (by decide)

/-- Legible terms can be read back wherever a comma or a closing parenthesis follows. -/
theorem Legible.readable {t : Term} (legible : t.Legible) :
    Readable Legible shown [',', ')'] t := by
  induction legible with
  | text s =>
    intro other r u legible' left right same
    have openings := (Legible.text s).opening_eq legible' same
    cases legible' with
    | text s' =>
      obtain ⟨rfl, rfl⟩ := Text.quoted_append_inj same
      exact ⟨rfl, rfl⟩
    | word exact word =>
      rw [opening_value word] at openings
      exact nomatch openings
    | sequence _ | record _ _ _ => exact nomatch openings
  | @word literal exact word =>
    intro other r u legible' left right same
    have openings := (Legible.word exact word).opening_eq legible' same
    have bare := literal.isBare_shown exact word
    rw [opening_value word] at openings
    cases legible' with
    | text s' => exact nomatch openings
    | @word literal' exact' word' =>
      obtain ⟨texts, rfl⟩ := bare_append_inj bare (literal'.isBare_shown exact' word')
        (left.mono ends_subset_marks) (right.mono ends_subset_marks) same
      rw [← literal.ofWord_shown exact word, ← literal'.ofWord_shown exact' word']
      exact ⟨congrArg (fun text => value (Literal.ofWord text)) texts, rfl⟩
    | sequence _ => exact nomatch openings
    | record bare' _ _ =>
      rw [toList_shown_record, List.append_assoc] at same
      exact absurd same (bare_clash bare bare' left)
  | @sequence items each ih =>
    intro other r u legible' left right same
    have openings := (Legible.sequence each).opening_eq legible' same
    cases legible' with
    | text s' => exact nomatch openings
    | word exact word =>
      rw [opening_value word] at openings
      exact nomatch openings
    | @sequence items' each' =>
      rw [shown, shown, shownItems_eq_map, shownItems_eq_map] at same
      obtain ⟨rfl, rfl⟩ := enclose_inj Legible.opens ih each each' same
      exact ⟨rfl, rfl⟩
    | record _ _ _ => exact nomatch openings
  | @record kind fields bare names each ih =>
    intro other r u legible' left right same
    have openings := (Legible.record bare names each).opening_eq legible' same
    cases legible' with
    | text s' => exact nomatch openings
    | @word literal exact word =>
      rw [toList_shown_record, List.append_assoc] at same
      exact absurd same.symm (bare_clash (literal.isBare_shown exact word) bare right)
    | sequence _ => exact nomatch openings
    | @record kind' fields' bare' names' each' =>
      simp only [toList_shown_record, List.append_assoc, List.cons_append, List.nil_append] at same
      obtain ⟨rfl, rest⟩ := bare_append_inj bare bare' (follows_cons.mpr (by decide))
        (follows_cons.mpr (by decide)) same
      obtain ⟨rfl, rfl⟩ := commas_inj opens_field
        (fun field member => readable_field (names field member) (ih field member))
        (fun field member => ⟨names field member, each field member⟩)
        (fun field member => ⟨names' field member, each' field member⟩) (List.cons.inj rest).2
      exact ⟨rfl, rfl⟩

/-- What is shown says which term it is. -/
theorem Legible.shown_inj {t t' : Term} (legible : t.Legible) (legible' : t'.Legible)
    (same : t.shown = t'.shown) : t = t' := by
  have texts : t.shown.toList ++ [] = t'.shown.toList ++ [] := by rw [same]
  exact (legible.readable t' [] [] legible' (follows_nil _) (follows_nil _) texts).1

/-! ## Printable text -/

theorem printable_of_bareChar {c : Char} (bare : bareChar c = true) : Text.printable c = true := by
  have between (first last : Char) (low : ' ' ≤ first) (high : last ≤ '~') (after : first ≤ c)
      (before : c ≤ last) : Text.printable c = true :=
    Text.printable_of_ascii (Char.le_trans low after) (Char.le_trans before high)
  simp only [bareChar, Char.isAlphanum, Char.isAlpha, Char.isUpper, Char.isLower, Char.isDigit,
    Bool.or_eq_true, Bool.and_eq_true, decide_eq_true_eq, beq_iff_eq] at bare
  rcases bare with (((upper | lower) | digit) | rfl) | rfl
  · exact between 'A' 'Z' (by decide) (by decide) upper.1 upper.2
  · exact between 'a' 'z' (by decide) (by decide) lower.1 lower.2
  · exact between '0' '9' (by decide) (by decide) digit.1 digit.2
  · rfl
  · rfl

/-- A text of printable characters. -/
def Printed (text : String) : Prop := ∀ c ∈ text.toList, Text.printable c = true

namespace Printed

variable {first second : String}

theorem fixed {text : String} (all : (text.toList.all Text.printable) = true) : Printed text :=
  List.all_eq_true.mp all

theorem append (left : Printed first) (right : Printed second) : Printed (first ++ second) := by
  rw [Printed, String.toList_append, List.forall_mem_append]
  exact ⟨left, right⟩

theorem commas {texts : List String} (each : ∀ text ∈ texts, Printed text) :
    Printed (", ".intercalate texts) := by
  induction texts with
  | nil => nofun
  | cons text rest ih =>
    obtain ⟨first, others⟩ := List.forall_mem_cons.mp each
    cases rest with
    | nil => rwa [String.intercalate_singleton]
    | cons next rest =>
      rw [String.intercalate_cons_cons]
      exact (first.append (fixed rfl)).append (ih others)

theorem enclose {texts : List String} (each : ∀ text ∈ texts, Printed text) :
    Printed (enclose texts) := by
  rw [Term.enclose.eq_def]
  split
  · exact ((fixed rfl).append (each _ (.head _))).append (fixed rfl)
  · exact ((fixed rfl).append (commas each)).append (fixed rfl)

theorem bare {word : String} (bare : isBare word = true) : Printed word :=
  fun c member => printable_of_bareChar ((isBare_iff.mp bare).2 c member)

end Printed

/-- A legible term fits on one line and shows nothing hidden. -/
theorem Legible.printed {t : Term} (legible : t.Legible) : Printed t.shown := by
  induction legible with
  | text s => exact Text.printable_quoted s
  | word exact word => exact .bare (Literal.isBare_shown exact word)
  | @sequence items each ih =>
    rw [shown, shownItems_eq_map]
    exact .enclose (List.forall_mem_map.mpr ih)
  | @record kind fields bare names each ih =>
    rw [shown, shownFields_eq_map]
    have inner : ∀ text ∈ fields.map Field.shown, Printed text := by
      rw [List.forall_mem_map]
      intro field member
      exact ((Printed.bare (names field member)).append (.fixed rfl)).append (ih field member)
    exact (((Printed.bare bare).append (.fixed rfl)).append (.commas inner)).append (.fixed rfl)

end Term
end Facade.Ambient
