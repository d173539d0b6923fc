import SeedPeg.Text.Printable

/-!
# Quoted text

How a text is displayed so that its ends and its special characters can be told: between quotes,
with a backslash before the quote itself and before a backslash, and with an escape of letters
and digits for a character that is not shown as it is. Single quotes are used unless the text
has single quotes and no double ones.
-/

namespace SeedPeg.Text

def singleQuote : Char := '\x27'

def doubleQuote : Char := '\x22'

/-- The code of a character in `width` lower-case hexadecimal digits or more. -/
def hexadecimal (width : Nat) (code : Nat) : List Char :=
  let digits := Nat.toDigits 16 code
  List.replicate (width - digits.length) '0' ++ digits

/-- How a character stands between quotes: `plain` decides which are shown as they are. -/
def escape (plain : Char → Bool) (quote : Char) (c : Char) : List Char :=
  if c = quote ∨ c = '\\' then ['\\', c]
  else if c = '\t' then ['\\', 't']
  else if c = '\n' then ['\\', 'n']
  else if c = '\r' then ['\\', 'r']
  else if plain c then [c]
  else if c.toNat < 0x100 then '\\' :: 'x' :: hexadecimal 2 c.toNat
  else if c.toNat < 0x10000 then '\\' :: 'u' :: hexadecimal 4 c.toNat
  else '\\' :: 'U' :: hexadecimal 8 c.toNat

/-- The quote put around a text. -/
def quoteFor (cs : List Char) : Char :=
  if cs.contains singleQuote && !cs.contains doubleQuote then doubleQuote else singleQuote

/-- A text between quotes. -/
def quoted (plain : Char → Bool) (cs : List Char) : List Char :=
  let quote := quoteFor cs
  quote :: cs.flatMap (escape plain quote) ++ [quote]

/-- A string as it is displayed inside other values. -/
def quotedString (s : String) : String := String.ofList (quoted isPrintable s.toList)

/-- Bytes as they are displayed: quoted like the characters of their codes, of which only those
    of the first 128 are shown as they are, behind a letter. -/
def quotedBytes (bs : List UInt8) : String :=
  String.ofList ('b' :: quoted isPlainAscii (bs.map fun b => Char.ofNat b.toNat))

/-- A text on one line: tabulators are escaped, and it ends where its first line does. -/
def oneLine (s : String) : String :=
  String.ofList <| (s.toList.takeWhile (· ≠ '\n')).flatMap fun c =>
    if c = '\t' then ['\\', 't'] else [c]

end SeedPeg.Text
