import Segmentation.Json

/-!
# Reading JSON text

`Json.parse?` reads one value from a text.  A number without fraction and exponent that fits 64 bits, signed or
unsigned, is whole; every other one is the nearest binary64 number, and so is `-0`.  The reader descends with a
bound on its depth and length that the text itself gives.
-/

namespace Segmentation.Json.Reader

abbrev Rest := List Char

def skipBlank (cs : Rest) : Rest :=
  cs.dropWhile fun c => c = ' ' || c = '\t' || c = '\n' || c = '\r'

def dropToken? : List Char → Rest → Option Rest
  | [], cs => some cs
  | t :: ts, c :: cs => if t = c then dropToken? ts cs else none
  | _ :: _, [] => none

def hexDigit? (c : Char) : Option Nat :=
  if '0' ≤ c ∧ c ≤ '9' then some (c.toNat - '0'.toNat)
  else if 'a' ≤ c ∧ c ≤ 'f' then some (c.toNat - 'a'.toNat + 10)
  else if 'A' ≤ c ∧ c ≤ 'F' then some (c.toNat - 'A'.toNat + 10)
  else none

def hexUnit? : Rest → Option (Nat × Rest)
  | a :: b :: c :: d :: rest => do
    let a ← hexDigit? a
    let b ← hexDigit? b
    let c ← hexDigit? c
    let d ← hexDigit? d
    some (((a * 16 + b) * 16 + c) * 16 + d, rest)
  | _ => none

/-- The character that follows a backslash; two surrogate units stand for one character. -/
def escaped? : Rest → Option (Char × Rest)
  | '"' :: rest => some ('"', rest)
  | '\\' :: rest => some ('\\', rest)
  | '/' :: rest => some ('/', rest)
  | 'b' :: rest => some ('\x08', rest)
  | 'f' :: rest => some ('\x0c', rest)
  | 'n' :: rest => some ('\n', rest)
  | 'r' :: rest => some ('\r', rest)
  | 't' :: rest => some ('\t', rest)
  | 'u' :: rest => do
    let (high, rest) ← hexUnit? rest
    if 0xd800 ≤ high ∧ high < 0xdc00 then
      let rest ← dropToken? ['\\', 'u'] rest
      let (low, rest) ← hexUnit? rest
      if 0xdc00 ≤ low ∧ low < 0xe000 then
        some (Char.ofNat (0x10000 + (high - 0xd800) * 0x400 + (low - 0xdc00)), rest)
      else none
    else if 0xdc00 ≤ high ∧ high < 0xe000 then none
    else some (Char.ofNat high, rest)
  | _ => none

/-- The rest of a string after its opening quote. -/
def string? : Nat → Rest → List Char → Option (String × Rest)
  | 0, _, _ => none
  | _, [], _ => none
  | _ + 1, '"' :: rest, done => some (String.ofList done.reverse, rest)
  | fuel + 1, '\\' :: rest, done => do
    let (c, rest) ← escaped? rest
    string? fuel rest (c :: done)
  | fuel + 1, c :: rest, done => if c.toNat < 0x20 then none else string? fuel rest (c :: done)

def natOfDigits (digits : List Char) : Nat :=
  digits.foldl (fun n c => n * 10 + (c.toNat - '0'.toNat)) 0

/-- The number whose integer digits, fraction digits and exponent are given. -/
def number? (negative : Bool) (whole fraction : List Char) (exponent : Option Int) : Option Json :=
  let digits := natOfDigits (whole ++ fraction)
  let isWhole := fraction.isEmpty && exponent.isNone
  if isWhole && !negative && digits < Nat.pow 2 64 then some (.int digits)
  else if isWhole && negative && digits ≠ 0 && digits ≤ Nat.pow 2 63 then some (.int (-digits))
  else (Double.ofDecimal? negative digits (exponent.getD 0 - fraction.length)).map .float

def numberText? (cs : Rest) : Option (Json × Rest) := do
  let (negative, cs) := match cs with
    | '-' :: rest => (true, rest)
    | _ => (false, cs)
  let whole := cs.takeWhile Char.isDigit
  let cs := cs.dropWhile Char.isDigit
  if whole.isEmpty then none
  let (fraction, cs) := match cs with
    | '.' :: rest => (rest.takeWhile Char.isDigit, rest.dropWhile Char.isDigit)
    | _ => ([], cs)
  let (exponent, cs) := match cs with
    | e :: rest =>
      if e = 'e' ∨ e = 'E' then
        let (sign, rest) : Int × Rest := match rest with
          | '-' :: rest => (-1, rest)
          | '+' :: rest => (1, rest)
          | _ => (1, rest)
        (some (sign * natOfDigits (rest.takeWhile Char.isDigit)), rest.dropWhile Char.isDigit)
      else (none, cs)
    | [] => (none, cs)
  let value ← number? negative whole fraction exponent
  some (value, cs)

mutual

def value? : Nat → Rest → Option (Json × Rest)
  | 0, _ => none
  | fuel + 1, cs =>
    match skipBlank cs with
    | '"' :: rest => do
      let (s, rest) ← string? (rest.length + 1) rest []
      some (.str s, rest)
    | '[' :: rest =>
      match skipBlank rest with
      | ']' :: rest => some (.arr [], rest)
      | rest => do
        let (items, rest) ← items? fuel rest
        some (.arr items, rest)
    | '\x7b' :: rest =>
      match skipBlank rest with
      | '\x7d' :: rest => some (.obj [], rest)
      | rest => do
        let (members, rest) ← members? fuel rest
        some (object members, rest)
    | 'n' :: rest => do some (.null, ← dropToken? ['u', 'l', 'l'] rest)
    | 't' :: rest => do some (.bool true, ← dropToken? ['r', 'u', 'e'] rest)
    | 'f' :: rest => do some (.bool false, ← dropToken? ['a', 'l', 's', 'e'] rest)
    | rest => numberText? rest

def items? : Nat → Rest → Option (List Json × Rest)
  | 0, _ => none
  | fuel + 1, cs => do
    let (item, rest) ← value? fuel cs
    match skipBlank rest with
    | ',' :: rest =>
      let (items, rest) ← items? fuel rest
      some (item :: items, rest)
    | ']' :: rest => some ([item], rest)
    | _ => none

def members? : Nat → Rest → Option (List (String × Json) × Rest)
  | 0, _ => none
  | fuel + 1, cs => do
    let rest ← dropToken? ['"'] (skipBlank cs)
    let (key, rest) ← string? (rest.length + 1) rest []
    let rest ← dropToken? [':'] (skipBlank rest)
    let (value, rest) ← value? fuel rest
    match skipBlank rest with
    | ',' :: rest =>
      let (members, rest) ← members? fuel rest
      some ((key, value) :: members, rest)
    | '\x7d' :: rest => some ([(key, value)], rest)
    | _ => none

end

end Reader

/-- The value that a text holds, with nothing but blanks around it. -/
def parse? (text : String) : Option Json := do
  let cs := text.toList
  let (value, rest) ← Reader.value? (2 * cs.length + 2) cs
  if (Reader.skipBlank rest).isEmpty then some value else none

end Segmentation.Json
