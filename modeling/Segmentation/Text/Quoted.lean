import Segmentation.Text.Unprintable

/-!
# Quoted text

Two ways of writing a text between double quotes.  `Text.quoted` is the string of a JSON document: a quote, a
backslash and the control characters are escaped, all else stands for itself.  `Text.displayed` is for messages
to a reader: it also shows by number every character that could not be seen.
-/

namespace Segmentation.Text

/-- Texts with a separator between them. -/
def joined (separator : List Char) : List (List Char) → List Char
  | [] => []
  | [t] => t
  | t :: ts => t ++ separator ++ joined separator ts

/-- A character inside a JSON string. -/
def escape (c : Char) : List Char :=
  match c with
  | '"' => ['\\', '"']
  | '\\' => ['\\', '\\']
  | '\x08' => ['\\', 'b']
  | '\x0c' => ['\\', 'f']
  | '\n' => ['\\', 'n']
  | '\r' => ['\\', 'r']
  | '\t' => ['\\', 't']
  | c =>
    if c.toNat < 0x20 then
      ['\\', 'u', '0', '0', Nat.digitChar (c.toNat / 16), Nat.digitChar (c.toNat % 16)]
    else [c]

/-- A JSON string. -/
def quoted (s : List Char) : List Char :=
  '"' :: s.flatMap escape ++ ['"']

/-- A character of a message: unseen ones by their code point. -/
def display (c : Char) : List Char :=
  match c with
  | '\x00' => ['\\', '0']
  | '\t' => ['\\', 't']
  | '\n' => ['\\', 'n']
  | '\r' => ['\\', 'r']
  | '"' => ['\\', '"']
  | '\\' => ['\\', '\\']
  | c =>
    if isUnprintable c then '\\' :: 'u' :: '\x7b' :: (Nat.toDigits 16 c.toNat ++ ['\x7d'])
    else [c]

/-- A text as messages show it. -/
def displayed (s : List Char) : List Char :=
  '"' :: s.flatMap display ++ ['"']

end Segmentation.Text
