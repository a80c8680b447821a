import Facade.Text.Printable

/-! Quoted text. The apostrophe is the quote unless the text holds one and no double
quote; the quote and the backslash are escaped, and so is every character that is not
printable, so a quoted text always fits on one line. -/
namespace Facade.Text

def apostrophe : Char := '\x27'
def doubleQuote : Char := '\x22'

def hexDigit (n : Nat) : Char := Char.ofNat (if n < 10 then 48 + n else 87 + n)

/-- The last `width` hexadecimal digits of a number. -/
def hexDigits : Nat → Nat → List Char
  | 0, _ => []
  | width + 1, n => hexDigits width (n / 16) ++ [hexDigit (n % 16)]

/-- The letter after the backslash tells how many digits follow. -/
def escapeCode (code : Nat) : List Char :=
  if code < 0x100 then '\\' :: 'x' :: hexDigits 2 code
  else if code < 0x10000 then '\\' :: 'u' :: hexDigits 4 code
  else '\\' :: 'U' :: hexDigits 8 code

def escape (quote c : Char) : List Char :=
  if c == quote || c == '\\' then ['\\', c]
  else if c == '\n' then ['\\', 'n']
  else if c == '\r' then ['\\', 'r']
  else if c == '\t' then ['\\', 't']
  else if printable c then [c]
  else escapeCode c.toNat

def quoteFor (chars : List Char) : Char :=
  if chars.contains apostrophe && !chars.contains doubleQuote then doubleQuote else apostrophe

def quotedChars (chars : List Char) : List Char :=
  quoteFor chars :: chars.flatMap (escape (quoteFor chars)) ++ [quoteFor chars]

def quoted (text : String) : String := String.ofList (quotedChars text.toList)

end Facade.Text
