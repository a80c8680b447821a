import Facade.Proofs.Annotations
import Facade.Proofs.Readability
import Mathlib.Data.List.TakeWhile

/-! How the host language reads what a facade quotes: its names, and the paths in its annotations.
A name in back-quotes ends at the first back-quote, a literal at the first quote that is not
escaped, and neither goes on over a line break. -/
namespace Facade
open Ambient (Node)

namespace Source

def breaksLine (c : Char) : Bool := c == '\n' || c == '\r'

/-- The words that the host language keeps for itself. -/
def keywords : List String := ["_", "abstract", "case", "catch", "class", "def", "do", "else",
  "extends", "false", "final", "finally", "for", "forSome", "if", "implicit", "import", "lazy",
  "macro", "match", "new", "null", "object", "override", "package", "private", "protected",
  "return", "sealed", "super", "this", "throw", "trait", "try", "true", "type", "val", "var",
  "while", "with", "yield"]

/-- No identifier is written like this without back-quotes. -/
def reservedWord (word : List Char) : Bool := keywords.contains (String.ofList word)

/-- A facade quotes all of these words but one. -/
theorem reserved_eq_filter : reserved = keywords.filter (· != "_") := by decide

theorem contains_keywords {word : String} (free : reserved.contains word = false) :
    keywords.contains word = false ↔ word ≠ "_" := by
  have listed : "_" ∈ keywords := by decide
  rw [reserved_eq_filter, ← Bool.not_eq_true, List.contains_iff_mem, List.mem_filter] at free
  rw [← Bool.not_eq_true, List.contains_iff_mem]
  constructor
  · rintro missing rfl
    exact missing listed
  · exact fun other member => free ⟨member, bne_iff_ne.mpr other⟩

/-- The identifier that a text begins with, and what follows it. -/
def identifier? : List Char → Option (List Char × List Char)
  | [] => none
  | c :: rest =>
      if c == '\x60' then
        let inside := rest.takeWhile (· != '\x60')
        match rest.dropWhile (· != '\x60') with
        | [] => none
        | _ :: after =>
            if inside.isEmpty || inside.any breaksLine then none else some (inside, after)
      else if wordStart c then
        let word := c :: rest.takeWhile wordRest
        if reservedWord word then none else some (word, rest.dropWhile wordRest)
      else none

def hexDigit? (c : Char) : Option Nat :=
  if c.isDigit then some (c.toNat - '0'.toNat)
  else if 'a' ≤ c ∧ c ≤ 'f' then some (c.toNat - 'a'.toNat + 10)
  else if 'A' ≤ c ∧ c ≤ 'F' then some (c.toNat - 'A'.toNat + 10)
  else none

/-- The character of a code with four digits. -/
def unicode? (digits : List Char) : Option Char :=
  (digits.mapM hexDigit?).map fun values =>
    Char.ofNat (values.foldl (fun code value => 16 * code + value) 0)

/-- The character that is written with a backslash and this one. -/
def escape? (c : Char) : Option Char :=
  [('b', '\x08'), ('t', '\t'), ('n', '\n'), ('f', '\x0c'), ('r', '\r'), ('"', '"'), ('\'', '\''),
    ('\\', '\\')].lookup c

/-- The character that stands for itself. -/
def bare? (c : Char) : Option Char := if c == '\\' || breaksLine c then none else some c

/-- One more character before what a literal denotes. -/
def prepend (c? : Option Char) (read : Option (List Char × List Char)) :
    Option (List Char × List Char) := do
  let c ← c?
  let (text, after) ← read
  return (c :: text, after)

/-- What the literal denotes whose opening quote is before a text, and what follows its closing
one. -/
def literal? : List Char → Option (List Char × List Char)
  | [] => none
  | '"' :: rest => some ([], rest)
  | '\\' :: 'u' :: i :: j :: k :: l :: rest => prepend (unicode? [i, j, k, l]) (literal? rest)
  | '\\' :: c :: rest => prepend (escape? c) (literal? rest)
  | c :: rest => prepend (bare? c) (literal? rest)

variable {c : Char} {chars text rest after : List Char}

/-! ## Names -/

/-- Only what is neither reserved nor anything but a plain word stands without back-quotes. -/
theorem quoteName_eq (name : String) :
    (quoteName name).toList = '\x60' :: (name.toList ++ ['\x60']) ∧
        (reserved.contains name = true ∨ plainWord name.toList = false) ∨
      (quoteName name).toList = name.toList ∧ reserved.contains name = false ∧
        plainWord name.toList = true := by
  unfold quoteName
  by_cases bare : (reserved.contains name || !plainWord name.toList) = true
  · rw [if_pos bare]
    refine .inl ⟨by simp [String.toList_append], ?_⟩
    simpa using bare
  · rw [if_neg bare]
    refine .inr ⟨rfl, ?_⟩
    simpa using bare

/-- What stands in back-quotes is read up to the first of them. -/
theorem identifier?_quoted {inside : List Char} :
    identifier? ('\x60' :: (inside ++ ['\x60'])) = some (inside, []) ↔
      inside ≠ [] ∧ ∀ c ∈ inside, c ≠ '\x60' ∧ breaksLine c = false := by
  have unfolded (read : List Char) : identifier? ('\x60' :: read) =
      match read.dropWhile (· != '\x60') with
      | [] => none
      | _ :: after =>
          if (read.takeWhile (· != '\x60')).isEmpty ||
            (read.takeWhile (· != '\x60')).any breaksLine then none
          else some (read.takeWhile (· != '\x60'), after) := rfl
  constructor
  · intro read
    rw [unfolded] at read
    split at read
    · contradiction
    · split at read
      · contradiction
      · next whole =>
        obtain ⟨taken, _⟩ := Prod.mk.inj (Option.some.inj read)
        rw [taken] at whole
        simp only [Bool.or_eq_true, List.isEmpty_iff, List.any_eq_true, not_or, not_exists,
          not_and, Bool.not_eq_true] at whole
        refine ⟨whole.1, fun c member => ⟨?_, whole.2 c member⟩⟩
        rw [← taken] at member
        exact bne_iff_ne.mp (List.mem_takeWhile_imp (p := (· != '\x60')) member)
  · rintro ⟨some, good⟩
    have each : ∀ c ∈ inside, (c != '\x60') = true := fun c member =>
      bne_iff_ne.mpr (good c member).1
    have unbroken : inside.any breaksLine = false := by
      rw [List.any_eq_false]
      intro c member
      simp [(good c member).2]
    rw [unfolded, List.takeWhile_append_of_pos each, List.dropWhile_append_of_pos each]
    simp [some, unbroken]

theorem ne_back_quote_of_wordRest (inside : wordRest c = true) : c ≠ '\x60' := by
  rintro rfl
  contradiction

/-- A plain word is read as far as its characters go, which leaves a line break at its end. -/
theorem identifier?_bare {word : List Char} (plain : plainWord word = true) :
    identifier? word = some (word, []) ↔
      reservedWord word = false ∧ ∀ c ∈ word, wordRest c = true := by
  cases word with
  | nil => contradiction
  | cons c rest =>
    have start : wordStart c = true := ((Bool.and_eq_true _ _).mp plain).1
    have inside : wordRest c = true := by simp only [wordRest, start, Bool.true_or]
    have bare : (c == '\x60') = false := beq_eq_false_iff_ne.mpr (ne_back_quote_of_wordRest inside)
    have unfolded : identifier? (c :: rest) =
        if reservedWord (c :: rest.takeWhile wordRest) then none
        else some (c :: rest.takeWhile wordRest, rest.dropWhile wordRest) := by
      simp only [identifier?, bare, start, Bool.false_eq_true, ↓reduceIte]
    rw [unfolded]
    constructor
    · intro read
      split at read
      · contradiction
      · next free =>
        obtain ⟨taken, _⟩ := Prod.mk.inj (Option.some.inj read)
        rw [taken] at free
        have others := List.takeWhile_eq_self_iff.mp (List.cons.inj taken).2
        exact ⟨Bool.eq_false_iff.mpr free, List.forall_mem_cons.mpr ⟨inside, others⟩⟩
    · rintro ⟨free, all⟩
      have others := (List.forall_mem_cons.mp all).2
      have taken : rest.takeWhile wordRest = rest := List.takeWhile_eq_self_iff.mpr others
      have left : rest.dropWhile wordRest = [] := List.dropWhile_eq_nil_iff.mpr others
      rw [taken, left, if_neg (by simp [free])]

theorem breaksLine_of_wordRest (inside : wordRest c = true) : breaksLine c = false := by
  unfold breaksLine
  rw [Bool.or_eq_false_iff, beq_eq_false_iff_ne, beq_eq_false_iff_ne]
  constructor <;>
  · rintro rfl
    contradiction

/-- The last character of a plain word may be a line break, all others belong to words. -/
theorem wordRest_of_plainTail {word : List Char} (plain : plainTail word = true)
    (unbroken : ∀ c ∈ word, breaksLine c = false) : ∀ c ∈ word, wordRest c = true := by
  induction word with
  | nil => nofun
  | cons c word ih =>
    rcases plainTail_cons.mp plain with ⟨rfl, _⟩ | ⟨inside, others⟩
    · exact absurd (unbroken _ (.head _)) (by decide)
    · exact List.forall_mem_cons.mpr
        ⟨inside, ih others fun d member => unbroken d (.tail _ member)⟩

/-- A name is read back from what is written for it unless it is empty or a lone underscore, or a
back-quote or a line break stands in it. -/
theorem identifier?_quoteName (name : String) :
    identifier? (quoteName name).toList = some (name.toList, []) ↔
      name ≠ "" ∧ name ≠ "_" ∧ ∀ c ∈ name.toList, c ≠ '\x60' ∧ breaksLine c = false := by
  have empty : name.toList ≠ [] ↔ name ≠ "" := not_congr String.toList_eq_nil_iff
  rcases quoteName_eq name with ⟨quoted, other⟩ | ⟨bare, free, plain⟩
  · have visible : name ≠ "_" := by
      rintro rfl
      rcases other with listed | odd <;> contradiction
    rw [quoted, identifier?_quoted, empty]
    simp only [ne_eq, visible, not_false_eq_true, true_and]
  · rw [bare, identifier?_bare plain, ← empty]
    have lone : reservedWord name.toList = false ↔ name ≠ "_" := by
      rw [reservedWord, String.ofList_toList]
      exact contains_keywords free
    have some : name.toList ≠ [] := by
      intro none
      rw [none] at plain
      contradiction
    rw [lone]
    constructor
    · rintro ⟨visible, inside⟩
      exact ⟨some, visible, fun c member =>
        ⟨ne_back_quote_of_wordRest (inside c member), breaksLine_of_wordRest (inside c member)⟩⟩
    · rintro ⟨_, visible, good⟩
      exact ⟨visible, wordRest_of_plainTail (plainTail_of_plainWord plain)
        fun c member => (good c member).2⟩

/-! ## Literals -/

theorem prepend_eq_some {c? : Option Char} {read : Option (List Char × List Char)} :
    prepend c? read = some (text, after) ↔
      ∃ c inner, c? = some c ∧ read = some (inner, after) ∧ c :: inner = text := by
  cases c? with
  | none => simp [prepend]
  | some c =>
    cases read with
    | none => simp [prepend]
    | some read =>
      obtain ⟨inner, left⟩ := read
      simp only [prepend, Option.bind_eq_bind, Option.bind_some, Option.pure_def,
        Option.some.injEq, Prod.mk.injEq]
      constructor
      · rintro ⟨rfl, rfl⟩
        exact ⟨c, inner, rfl, ⟨rfl, rfl⟩, rfl⟩
      · rintro ⟨_, _, rfl, ⟨rfl, rfl⟩, rfl⟩
        exact ⟨rfl, rfl⟩

/-- A literal takes at least one character for each that it denotes, and its closing quote. -/
theorem length_of_literal? (read : literal? chars = some (text, after)) :
    text.length + after.length < chars.length := by
  fun_induction literal? chars generalizing text with
  | case1 => contradiction
  | case2 rest =>
    obtain ⟨rfl, rfl⟩ := Prod.mk.inj (Option.some.inj read)
    simp
  | case3 i j k l rest ih | case4 i rest _ ih | case5 i rest _ _ _ ih =>
    obtain ⟨c, inner, _, here, rfl⟩ := prepend_eq_some.mp read
    have shorter := ih here
    simp only [List.length_cons]
    omega

/-- A character that neither ends a literal nor begins an escape in it. -/
def Bare (c : Char) : Prop := c ≠ '"' ∧ c ≠ '\\' ∧ breaksLine c = false

theorem literal?_cons (quote : c ≠ '"') (backslash : c ≠ '\\') :
    literal? (c :: rest) = prepend (bare? c) (literal? rest) :=
  literal?.eq_5 c rest quote (fun _ _ _ _ _ first _ => backslash first)
    fun _ _ first _ => backslash first

theorem bare?_eq_some {d : Char} (backslash : c ≠ '\\') :
    bare? c = some d ↔ breaksLine c = false ∧ c = d := by
  unfold bare?
  rw [beq_eq_false_iff_ne.mpr backslash, Bool.false_or]
  cases breaksLine c <;> simp

/-- Behind a backslash a literal denotes less than is written there. -/
theorem length_of_escaped (read : literal? ('\\' :: rest) = some (text, after)) :
    text.length + after.length < rest.length := by
  cases rest with
  | nil => contradiction
  | cons e rest =>
    by_cases unicode : ∃ i j k l tail, e = 'u' ∧ rest = i :: j :: k :: l :: tail
    · obtain ⟨i, j, k, l, tail, rfl, rfl⟩ := unicode
      obtain ⟨c, inner, _, here, rfl⟩ := prepend_eq_some.mp read
      have shorter := length_of_literal? here
      simp only [List.length_cons]
      omega
    · rw [literal?.eq_4 e rest fun i j k l tail first others =>
        unicode ⟨i, j, k, l, tail, first, others⟩] at read
      obtain ⟨c, inner, _, here, rfl⟩ := prepend_eq_some.mp read
      have shorter := length_of_literal? here
      simp only [List.length_cons]
      omega

/-- A text between quotes is what the literal denotes exactly if all its characters are bare. -/
theorem literal?_closed (text after : List Char) :
    literal? (text ++ '"' :: after) = some (text, after) ↔ ∀ c ∈ text, Bare c := by
  induction text with
  | nil => exact ⟨fun _ => nofun, fun _ => rfl⟩
  | cons c text ih =>
    rw [List.forall_mem_cons, ← ih, List.cons_append]
    by_cases quote : c = '"'
    · subst c
      simp [literal?, Bare]
    · by_cases backslash : c = '\\'
      · subst c
        constructor
        · intro read
          have shorter := length_of_escaped read
          simp only [List.length_append, List.length_cons] at shorter
          omega
        · exact fun bare => absurd rfl bare.1.2.1
      · rw [literal?_cons quote backslash, prepend_eq_some]
        simp only [bare?_eq_some backslash, List.cons.injEq, Bare, ne_eq, quote, backslash,
          not_false_eq_true, true_and]
        constructor
        · rintro ⟨d, inner, ⟨unbroken, rfl⟩, here, _, rfl⟩
          exact ⟨unbroken, here⟩
        · rintro ⟨unbroken, here⟩
          exact ⟨c, text, ⟨unbroken, rfl⟩, here, rfl, rfl⟩

end Source

open Source (quoteName identifier? literal? breaksLine globalMark)

theorem SheetLine.printed_global {line : SheetLine} {path : List String}
    (content : line.content = .global path) :
    line.printed "" [] = margin line.depth ++ globalMark path := by
  have some : (globalMark path).isEmpty = false := by
    simp [globalMark]
  simp only [printed, content, LineContent.text, List.nil_append, some, Bool.false_eq_true,
    ↓reduceIte, String.empty_append]

/-- What is written for a name is read as the identifier of this name unless the name is empty or a
lone underscore, or there is a back-quote or a line break in it. The annotations of a tree are those
of its paths, and a path is read from its annotation unless it has a quote, a backslash or a line
break in it. -/
theorem quoted_names_and_paths (name outputPackage : String) {c : Container}
    (whole : (c.printed outputPackage).fault = none) :
    (identifier? (quoteName name).toList = some (name.toList, []) ↔
      name ≠ "" ∧ name ≠ "_" ∧ ∀ x ∈ name.toList, x ≠ '\x60' ∧ breaksLine x = false) ∧
    ∃ lines, c.sheet outputPackage = .ok lines ∧
      (c.printed outputPackage).text = sheetText lines ∧
      lines.filterMap (·.content.global?) = c.globals ∧
      ∀ before line after path, lines = before ++ line :: after → line.content = .global path →
        ∃ annotated, (c.printed outputPackage).text = sheetText before ++
            SheetLine.margin line.depth ++ "@JSGlobal(\"" ++ annotated ∧
          (literal? annotated.toList = some ((".".intercalate path).toList,
              (")\n" ++ sheetText after).toList) ↔
            ∀ x ∈ (".".intercalate path).toList, x ≠ '"' ∧ x ≠ '\\' ∧ breaksLine x = false) := by
  refine ⟨Source.identifier?_quoteName name, ?_⟩
  obtain ⟨lines, made⟩ := (Symbol.fault_printed _ _).mp whole
  have text : (c.printed outputPackage).text = sheetText lines :=
    congrArg Printed.text (Symbol.printed_of_sheet made)
  refine ⟨lines, made, text, c.shows_globals outputPackage lines made, ?_⟩
  rintro before line after path rfl content
  refine ⟨".".intercalate path ++ "\"" ++ (")\n" ++ sheetText after), ?_, ?_⟩
  · rw [text, sheetText_append, sheetText_cons, SheetLine.printed_global content, globalMark]
    simp only [String.append_assoc]
    rfl
  · have chars : (".".intercalate path ++ "\"" ++ (")\n" ++ sheetText after)).toList =
        (".".intercalate path).toList ++ '"' :: (")\n" ++ sheetText after).toList := by
      simp [String.toList_append]
    rw [chars]
    exact Source.literal?_closed _ _

/-- An object in a package is annotated with its path, below the object for what is left. -/
theorem quoted_names_and_paths_namespace :
    let inner : List Node := [.varDecl "data-id" (some (.objectType [])),
      .varDecl "x" (some (.core "number"))]
    let root := (importTree [.moduleDecl "ns" inner]).container
    (root.printed "p").fault = none ∧ root.globals = [["ns", "data-id"], ["ns"]] ∧
      identifier? (quoteName "data-id").toList = some ("data-id".toList, []) ∧
      ∃ above annotated below, (root.printed "p").text = above ++ "@JSGlobal(\"" ++ annotated ∧
        literal? annotated.toList = some ("ns.data-id".toList, below) := by
  intro inner root
  have whole : (root.printed "p").fault = none := by rfl
  have paths : root.globals = [["ns", "data-id"], ["ns"]] := by rfl
  obtain ⟨reads, lines, made, text, globals, marks⟩ :=
    quoted_names_and_paths "data-id" "p" whole
  have bare : "data-id".toList.all (fun x => x != '\x60' && !breaksLine x) = true := by decide
  have safe : "ns.data-id".toList.all
      (fun x => x != '"' && x != '\\' && !breaksLine x) = true := by decide
  refine ⟨whole, paths, reads.mpr ⟨by decide, by decide, fun x member => ?_⟩, ?_⟩
  · simpa using List.all_eq_true.mp bare x member
  obtain ⟨line, here, content⟩ : ∃ line, lines[9]? = some line ∧
      line.content = .global ["ns", "data-id"] := by
    obtain rfl := Except.ok.inj ((show root.sheet "p" = .ok _ from rfl).symm.trans made)
    exact ⟨_, rfl, rfl⟩
  obtain ⟨inRange, rfl⟩ := List.getElem?_eq_some_iff.mp here
  have cut : lines = lines.take 9 ++ lines[9] :: lines.drop 10 := by
    rw [List.getElem_cons_drop, List.take_append_drop]
  obtain ⟨annotated, printed, read⟩ := marks _ _ _ _ cut content
  refine ⟨_, annotated, _, printed, read.mpr fun x member => ?_⟩
  simpa [and_assoc] using List.all_eq_true.mp safe x member

/-- A lone underscore is reserved, a line break at the end of a word is left over, and a quote in a
path ends the literal. -/
theorem quoted_names_and_paths_broken :
    let root := (importTree [.varDecl "a\"b\\c" (some (.objectType []))]).container
    identifier? (quoteName "_").toList = none ∧
      identifier? (quoteName "a\n").toList = some (['a'], ['\n']) ∧
      identifier? (quoteName "a\x60b").toList = some (['a'], ['b', '\x60']) ∧
      identifier? (quoteName "").toList = none ∧
      root.globals = [["a\"b\\c"]] ∧
      ∃ above annotated after, (root.printed "p").text = above ++ "@JSGlobal(\"" ++ annotated ∧
        literal? annotated.toList = some (['a'], after) := by
  intro root
  refine ⟨by decide, by decide, by decide, by decide, rfl, ?_⟩
  exact ⟨"\nimport scala.scalajs.js\nimport js.annotation._\n\npackage p \x7b\n\n@js.native\n",
    "a\"b\\c\")\nobject \x60a\"b\\c\x60 extends js.Object\n\n\x7d\n", _, by decide +kernel, rfl⟩

end Facade
