import Facade.Text.Quoted
import Mathlib.Algebra.Group.Nat.Defs

/-! Quoted text shows all of a text and nothing hidden. The first character of an escaped text can
be told from what stands there, and no escape begins with the quote, so a quoted text also says
where it ends. -/
namespace Facade.Text

def IsQuote (c : Char) : Prop := c = apostrophe ∨ c = doubleQuote

theorem isQuote_quoteFor (chars : List Char) : IsQuote (quoteFor chars) := by
  rw [quoteFor]
  split
  · exact .inr rfl
  · exact .inl rfl

theorem IsQuote.ne_backslash {quote : Char} (quotes : IsQuote quote) : quote ≠ '\\' := by
  rcases quotes with rfl | rfl <;> decide

/-! ## Codes -/

/-- The value of a hexadecimal digit. -/
def hexValue (c : Char) : Nat := if c.toNat < 58 then c.toNat - 48 else c.toNat - 87

def readHex (digits : List Char) : Nat := digits.foldl (fun n c => 16 * n + hexValue c) 0

theorem hexValue_hexDigit : ∀ n < 16, hexValue (hexDigit n) = n := by decide

theorem length_hexDigits (width n : Nat) : (hexDigits width n).length = width := by
  induction width generalizing n with
  | zero => rfl
  | succ width ih => rw [hexDigits, List.length_append, ih, List.length_singleton]

theorem readHex_hexDigits (width n : Nat) : readHex (hexDigits width n) = n % 16 ^ width := by
  induction width generalizing n with
  | zero => rw [Nat.pow_zero, Nat.mod_one]; rfl
  | succ width ih =>
    have higher : readHex (hexDigits width (n / 16) ++ [hexDigit (n % 16)]) =
        16 * readHex (hexDigits width (n / 16)) + hexValue (hexDigit (n % 16)) :=
      List.foldl_append
    rw [hexDigits, higher, ih, hexValue_hexDigit _ (Nat.mod_lt n (by decide)), Nat.pow_succ',
      Nat.mod_mul, Nat.add_comm]

/-! ## Reading back -/

/-- A character from so many digits, with the text behind them. -/
def readCode (width : Nat) (chars : List Char) : Char × List Char :=
  (Char.ofNat (readHex (chars.take width)), chars.drop width)

theorem readCode_hexDigits {width : Nat} {c : Char} (fits : c.toNat < 16 ^ width)
    (rest : List Char) : readCode width (hexDigits width c.toNat ++ rest) = (c, rest) := by
  have length := length_hexDigits width c.toNat
  rw [readCode, List.take_left' length, List.drop_left' length, readHex_hexDigits,
    Nat.mod_eq_of_lt fits, Char.ofNat_toNat]

/-- The first character of an escaped text, with the text behind it. -/
def unescape : List Char → Option (Char × List Char)
  | [] => none
  | '\\' :: 'n' :: rest => some ('\n', rest)
  | '\\' :: 'r' :: rest => some ('\r', rest)
  | '\\' :: 't' :: rest => some ('\t', rest)
  | '\\' :: 'x' :: rest => some (readCode 2 rest)
  | '\\' :: 'u' :: rest => some (readCode 4 rest)
  | '\\' :: 'U' :: rest => some (readCode 8 rest)
  | '\\' :: c :: rest => some (c, rest)
  | c :: rest => some (c, rest)

theorem unescape_escapeCode (c : Char) (rest : List Char) :
    unescape (escapeCode c.toNat ++ rest) = some (c, rest) := by
  rw [escapeCode]
  split
  · next short =>
    have fits : c.toNat < 16 ^ 2 := short
    exact congrArg some (readCode_hexDigits fits rest)
  split
  · next medium =>
    have fits : c.toNat < 16 ^ 4 := medium
    exact congrArg some (readCode_hexDigits fits rest)
  · have fits : c.toNat < 16 ^ 8 := c.val.toNat_lt
    exact congrArg some (readCode_hexDigits fits rest)

theorem unescape_of_ne {c : Char} (other : c ≠ '\\') (rest : List Char) :
    unescape (c :: rest) = some (c, rest) := by
  simp [unescape, other]

theorem unescape_escape {quote : Char} (quotes : IsQuote quote) (c : Char) (rest : List Char) :
    unescape (escape quote c ++ rest) = some (c, rest) := by
  rw [escape]
  split
  · next special =>
    simp only [Bool.or_eq_true, beq_iff_eq] at special
    rcases special with rfl | rfl
    · rcases quotes with rfl | rfl <;> rfl
    · rfl
  · next special =>
    simp only [Bool.or_eq_true, beq_iff_eq, not_or] at special
    split
    · next same => rw [beq_iff_eq.mp same]; rfl
    split
    · next same => rw [beq_iff_eq.mp same]; rfl
    split
    · next same => rw [beq_iff_eq.mp same]; rfl
    split
    · exact unescape_of_ne special.2 rest
    · exact unescape_escapeCode c rest

/-- No escape begins like the end of the text. -/
theorem head_escape {quote : Char} (quotes : IsQuote quote) (c : Char) :
    ∃ d rest, escape quote c = d :: rest ∧ d ≠ quote := by
  have backslash := quotes.ne_backslash.symm
  rw [escape]
  split
  · exact ⟨_, _, rfl, backslash⟩
  · next special =>
    simp only [Bool.or_eq_true, beq_iff_eq, not_or] at special
    split
    · exact ⟨_, _, rfl, backslash⟩
    split
    · exact ⟨_, _, rfl, backslash⟩
    split
    · exact ⟨_, _, rfl, backslash⟩
    split
    · exact ⟨c, [], rfl, special.1⟩
    · rw [escapeCode]
      split
      · exact ⟨_, _, rfl, backslash⟩
      split
      · exact ⟨_, _, rfl, backslash⟩
      · exact ⟨_, _, rfl, backslash⟩

theorem escaped_inj {quote : Char} (quotes : IsQuote quote) {first second r u : List Char}
    (same : first.flatMap (escape quote) ++ quote :: r =
      second.flatMap (escape quote) ++ quote :: u) : first = second ∧ r = u := by
  induction first generalizing second with
  | nil =>
    cases second with
    | nil => exact ⟨rfl, (List.cons.inj same).2⟩
    | cons c second =>
      obtain ⟨d, rest, begins, other⟩ := head_escape quotes c
      rw [List.flatMap_cons, begins] at same
      exact absurd (List.cons.inj same).1.symm other
  | cons c first ih =>
    cases second with
    | nil =>
      obtain ⟨d, rest, begins, other⟩ := head_escape quotes c
      rw [List.flatMap_cons, begins] at same
      exact absurd (List.cons.inj same).1 other
    | cons c' second =>
      rw [List.flatMap_cons, List.flatMap_cons, List.append_assoc, List.append_assoc] at same
      have read := congrArg unescape same
      rw [unescape_escape quotes, unescape_escape quotes, Option.some.injEq, Prod.mk.injEq] at read
      obtain ⟨chars, rest⟩ := ih read.2
      exact ⟨by rw [read.1, chars], rest⟩

/-- Quoted text says where it ends, whatever follows. -/
theorem quoted_append_inj {s t : String} {r u : List Char}
    (same : (quoted s).toList ++ r = (quoted t).toList ++ u) : s = t ∧ r = u := by
  simp only [quoted, String.toList_ofList, quotedChars, List.cons_append, List.append_assoc,
    List.nil_append, List.cons.injEq] at same
  obtain ⟨quote, rest⟩ := same
  rw [← quote] at rest
  obtain ⟨chars, behind⟩ := escaped_inj (isQuote_quoteFor _) rest
  exact ⟨String.toList_inj.mp chars, behind⟩

theorem head_quoted (s : String) : ∃ c rest, (quoted s).toList = c :: rest ∧ IsQuote c :=
  ⟨_, _, by rw [quoted, String.toList_ofList]; rfl, isQuote_quoteFor s.toList⟩

/-! ## Printable text -/

theorem inRanges_between {rest : List (Nat × Nat)} {start stop next last n : Nat}
    (behind : stop < n) (before : n < next) :
    inRanges ((start, stop) :: (next, last) :: rest) n = false := by
  rw [inRanges, inRanges, if_neg (Nat.not_le.mpr behind), if_pos before, ite_self]

/-- From the blank to the tilde. -/
theorem printable_of_ascii {c : Char} (first : ' ' ≤ c) (last : c ≤ '~') : printable c = true := by
  have low : 0x1F < c.toNat := first
  have high : c.toNat < 0x7F := Nat.lt_succ_of_le last
  have shown : inRanges hiddenRanges c.toNat = false := inRanges_between low high
  rw [printable, shown, Bool.not_false]

theorem printable_hexDigits (width n : Nat) : ∀ c ∈ hexDigits width n, printable c = true := by
  have digit : ∀ n < 16, ' ' ≤ hexDigit n ∧ hexDigit n ≤ '~' := by decide
  induction width generalizing n with
  | zero => nofun
  | succ width ih =>
    intro c member
    rw [hexDigits, List.mem_append, List.mem_singleton] at member
    rcases member with higher | rfl
    · exact ih _ c higher
    · obtain ⟨first, last⟩ := digit _ (Nat.mod_lt n (by decide))
      exact printable_of_ascii first last

theorem printable_escapeCode (n : Nat) : ∀ c ∈ escapeCode n, printable c = true := by
  have digits (letter : Char) (shown : printable letter = true) (width : Nat) :
      ∀ c ∈ '\\' :: letter :: hexDigits width n, printable c = true := by
    rw [List.forall_mem_cons, List.forall_mem_cons]
    exact ⟨printable_of_ascii (by decide) (by decide), shown, printable_hexDigits width n⟩
  rw [escapeCode]
  split
  · exact digits 'x' (printable_of_ascii (by decide) (by decide)) 2
  split
  · exact digits 'u' (printable_of_ascii (by decide) (by decide)) 4
  · exact digits 'U' (printable_of_ascii (by decide) (by decide)) 8

theorem IsQuote.printable {quote : Char} (quotes : IsQuote quote) : printable quote = true := by
  rcases quotes with rfl | rfl <;> exact printable_of_ascii (by decide) (by decide)

theorem printable_escape {quote : Char} (quotes : IsQuote quote) (c : Char) :
    ∀ d ∈ escape quote c, printable d = true := by
  have pair (letter : Char) (shown : printable letter = true) :
      ∀ d ∈ ['\\', letter], printable d = true := by
    rw [List.forall_mem_cons, List.forall_mem_singleton]
    exact ⟨printable_of_ascii (by decide) (by decide), shown⟩
  rw [escape]
  split
  · next special =>
    simp only [Bool.or_eq_true, beq_iff_eq] at special
    rcases special with rfl | rfl
    · exact pair c quotes.printable
    · exact pair '\\' (printable_of_ascii (by decide) (by decide))
  split
  · exact pair 'n' (printable_of_ascii (by decide) (by decide))
  split
  · exact pair 'r' (printable_of_ascii (by decide) (by decide))
  split
  · exact pair 't' (printable_of_ascii (by decide) (by decide))
  split
  · next shown => exact List.forall_mem_singleton.mpr shown
  · exact printable_escapeCode c.toNat

theorem printable_quoted (s : String) : ∀ c ∈ (quoted s).toList, printable c = true := by
  have quotes := isQuote_quoteFor s.toList
  rw [quoted, String.toList_ofList, quotedChars, List.forall_mem_append, List.forall_mem_cons,
    List.forall_mem_flatMap, List.forall_mem_singleton]
  exact ⟨⟨quotes.printable, fun c _ => printable_escape quotes c⟩, quotes.printable⟩

end Facade.Text
