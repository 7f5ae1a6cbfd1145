import StagedTT.Text.CharClass

/-!
# Quoted text

A text is shown between double quotes. Quotes, the backslash and four controls have a
one-letter escape; any other character without a visible form is shown by its code point in
hexadecimal. A combining character is shown by its code point only at the start of the text,
where it would combine with the opening quote.
-/

namespace StagedTT.Text

/-- The letter after the backslash, for the characters that have one. -/
def escapeLetter? : Char → Option Char
  | '\x00' => some '0'
  | '\x09' => some 't'
  | '\x0a' => some 'n'
  | '\x0d' => some 'r'
  | '\x22' => some '\x22'
  | '\x27' => some '\x27'
  | '\x5c' => some '\x5c'
  | _ => none

/-- A backslash, and the code point in braces. -/
def codePointEscape (c : Char) : List Char :=
  '\x5c' :: 'u' :: '\x7b' :: Nat.toDigits 16 c.toNat ++ ['\x7d']

/-- How a character is shown; `first` tells whether it starts the text. -/
def escapeChar (first : Bool) (c : Char) : List Char :=
  match escapeLetter? c with
  | some letter => ['\x5c', letter]
  | none =>
    if first && isCombining c || !isVisible c then codePointEscape c else [c]

/-- The characters of a text with those escaped that need it. -/
def escape : List Char → List Char
  | [] => []
  | c :: cs => escapeChar true c ++ cs.flatMap (escapeChar false)

/-- A text between double quotes. -/
def quoted (s : String) : String := String.ofList ('\x22' :: escape s.toList ++ ['\x22'])

end StagedTT.Text
