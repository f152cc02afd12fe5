/-! # Written numbers and texts

    Numbers in listings and messages are written in lowercase hexadecimal,
    filled up with zeros on the left to a least width. A number that needs
    more digits than the width gets all of them.

    Strings and characters of a rendered tree stand between quotes. Printable
    ASCII is written as it is, except that both quotes and the backslash get a
    backslash in front; tab, line feed and carriage return have short forms;
    every other character is written as its code point in hexadecimal between
    braces. The rule does not depend on which quote encloses the text.
-/

namespace CilLift.Text

/-! ## Hexadecimal numbers -/

/-- The lowercase hexadecimal digits of `n`, most significant first; zero has
    the one digit `0`. -/
def hexDigits (n : Nat) : List Char :=
  Nat.toDigits 16 n

/-- `digits` with zeros in front up to `width` characters. -/
def padZeros (width : Nat) (digits : List Char) : List Char :=
  List.replicate (width - digits.length) '0' ++ digits

/-- `n` in hexadecimal with at least `width` digits. -/
def hex (width n : Nat) : String :=
  String.ofList (padZeros width (hexDigits n))

/-- A code offset as listings and messages name it: `IL_` and at least four
    hexadecimal digits. -/
def offsetLabel (offset : Nat) : String :=
  "IL_" ++ hex 4 offset

@[simp] theorem toList_hex (width n : Nat) :
    (hex width n).toList = padZeros width (hexDigits n) := by
  simp [hex]

theorem length_padZeros (width : Nat) (digits : List Char) :
    (padZeros width digits).length = max width digits.length := by
  simp only [padZeros, List.length_append, List.length_replicate]
  omega

/-! ## Escaped text -/

/-- The short form's letter of a character that is written as a backslash and
    one more character. -/
def shortEscape? (c : Char) : Option Char :=
  if c = '\t' then some 't'
  else if c = '\r' then some 'r'
  else if c = '\n' then some 'n'
  else if c = '\'' ∨ c = '"' ∨ c = '\\' then some c
  else none

/-- Printable ASCII: from the space to the tilde. -/
def isPrintable (c : Char) : Bool :=
  0x20 ≤ c.toNat && c.toNat ≤ 0x7e

/-- A code point as a backslash, `u`, and its hexadecimal digits between
    braces, without padding. -/
def codePointEscape (n : Nat) : List Char :=
  '\\' :: 'u' :: '\x7b' :: hexDigits n ++ ['\x7d']

/-- The written form of one character. -/
def escapeChar (c : Char) : List Char :=
  match shortEscape? c with
  | some letter => ['\\', letter]
  | none => if isPrintable c then [c] else codePointEscape c.toNat

/-- The written form of a text, character by character. -/
def escape (text : String) : String :=
  String.ofList (text.toList.flatMap escapeChar)

@[simp] theorem toList_escape (text : String) :
    (escape text).toList = text.toList.flatMap escapeChar := by
  simp [escape]

/-- A string literal: the escaped text between double quotes. -/
def quoted (text : String) : String :=
  "\"" ++ escape text ++ "\""

/-- A character literal of one 16-bit code unit. A unit that is a surrogate is
    no character by itself and is written as its four hexadecimal digits
    without braces. -/
def quotedUnit (unit : UInt16) : String :=
  if 0xd800 ≤ unit.toNat ∧ unit.toNat ≤ 0xdfff then
    "'\\u" ++ hex 4 unit.toNat ++ "'"
  else
    "'" ++ String.ofList (escapeChar (Char.ofNat unit.toNat)) ++ "'"

end CilLift.Text
