import SeedPeg.Cursor
import SeedPeg.Fault

/-!
# Inputs

An input is a text, bytes, a list or a tuple, read symbol by symbol at a cursor. Text is made of
strings of one character and bytes of integers. A source is what an input is made from: a value
that is a sequence, or the stream of the symbols of one.
-/

namespace SeedPeg

/-- A finite sequence of symbols in one of four forms. -/
inductive Input where
  | text (chars : Array Char)
  | list (items : Array Value)
  | tuple (items : Array Value)
  | bytes (bs : Array UInt8)

namespace Input

def size : Input → Nat
  | .text chars => chars.size
  | .list items => items.size
  | .tuple items => items.size
  | .bytes bs => bs.size

def get? : Input → Nat → Option Value
  | .text chars, place => chars[place]?.map .ofChar
  | .list items, place => items[place]?
  | .tuple items, place => items[place]?
  | .bytes bs, place => bs[place]?.map fun b => .int b.toNat

/-- The form of an input, as it is called when a cursor points outside. -/
def container : Input → Container
  | .text _ => .text
  | .list _ => .list
  | .tuple _ => .tuple
  | .bytes _ => .bytes

/-- The symbol that a cursor points at. -/
def symbolAt (input : Input) (cursor : Int) : Except Fault Value :=
  match (Cursor.slot? input.size cursor).bind input.get? with
  | some symbol => .ok symbol
  | none => .error (.outside input.container cursor)

/-- The part of an input from one cursor to another, in the form of the input. -/
def cut (start stop : Int) : Input → Value
  | .text chars => .str (String.ofList (Cursor.cut chars start stop).toList)
  | .list items => .list (Cursor.cut items start stop).toList
  | .tuple items => .tuple (Cursor.cut items start stop).toList
  | .bytes bs => .bytes (Cursor.cut bs start stop).toList

def symbols : Input → List Value
  | .text chars => chars.toList.map .ofChar
  | .list items => items.toList
  | .tuple items => items.toList
  | .bytes bs => bs.toList.map fun b => .int b.toNat

/-- The input that a value is. -/
def ofValue? : Value → Option Input
  | .str s => some (.text s.toList.toArray)
  | .bytes bs => some (.bytes bs.toArray)
  | .list items => some (.list items.toArray)
  | .tuple items => some (.tuple items.toArray)
  | _ => none

@[simp] theorem length_symbols (input : Input) : input.symbols.length = input.size := by
  cases input <;> simp [symbols, size]

theorem get?_eq (input : Input) (place : Nat) : input.get? place = input.symbols[place]? := by
  cases input <;> simp [symbols, get?]

end Input

/-- What an input can be made from. -/
inductive Source where
  /-- A value, which should be a sequence. -/
  | direct (value : Value)
  /-- A stream of symbols, which can be read once and has no length, and the name of its kind. -/
  | stream (kind : String) (symbols : List Value)

namespace Source

/-- The name of the kind of stream over a value's symbols. -/
def streamName : Value → String
  | .str s => if s.toList.all (·.toNat < 0x80) then "str_ascii_iterator" else "str_iterator"
  | value => value.kindName ++ "_iterator"

/-- The stream of a value's symbols, or the fault of reading it as symbols. -/
def ofSymbols (value : Value) : Except Fault Source :=
  match value.symbols? with
  | some symbols => .ok (.stream (streamName value) symbols)
  | none => .error (.notIterable value.kindName)

/-- The stream of a source's symbols; a stream is its own. -/
def toStream : Source → Except Fault Source
  | .direct value => ofSymbols value
  | .stream kind symbols => .ok (.stream kind symbols)

/-- The input to be matched as a whole: a sequence as it is, a stream read into a tuple. -/
def read : Source → Except Fault Input
  | .direct value =>
    match Input.ofValue? value with
    | some input => .ok input
    | none => .error (.notIterable value.kindName)
  | .stream _ symbols => .ok (.tuple symbols.toArray)

/-- The input to be parsed in steps, which must have a length. -/
def measured : Source → Except Fault Input
  | .direct value =>
    match Input.ofValue? value with
    | some input => .ok input
    | none => .error (.unmeasured value.kindName)
  | .stream kind _ => .error (.unmeasured kind)

end Source

end SeedPeg
