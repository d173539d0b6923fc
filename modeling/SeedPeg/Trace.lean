import SeedPeg.Input

/-!
# The trace

What a match tells of its rule applications. An event says what happened, a message says at which
depth of open applications; a message is written as one line, indented by its depth.
-/

namespace SeedPeg

/-- Something that happens in a match. -/
inductive Event where
  | parsing (name : Value) (position : Int)
  /-- A rule comes back to the place where it is being evaluated for the first time. -/
  | leftRecursion (name : Value) (position : Int)
  /-- A left-recursive rule application found a longer match. -/
  | grew (name : Value) (position stop : Int)
  | matched (name : Value) (start stop : Int)
  | failed (name : Value) (position : Int)
  /-- The whole input is not matched. -/
  | incomplete (position : Int)
  /-- A remark from outside. -/
  | remark (text : String)

/-- An event and the number of rule applications that are open when it happens. -/
structure Message where
  depth : Int
  event : Event

/-- The number of symbols of the input shown when a rule application starts. -/
def previewWidth : Int := 32

/-- The words for an event in matching an input. -/
def Event.text (input : Input) : Event → String
  | .parsing name position =>
    "parsing " ++ name.text ++ " at position " ++ toString position ++ " >>>" ++
      (input.cut position (position + previewWidth)).oneLine
  | .leftRecursion name position =>
    "left recursion on " ++ name.text ++ " at position " ++ toString position
  | .grew name position stop =>
    "grew " ++ name.text ++ " at position " ++ toString position ++ " to position " ++
      toString stop
  | .matched name start stop =>
    "matched " ++ name.text ++ " at positions " ++ toString start ++ "-" ++ toString stop
  | .failed name position =>
    "failed to match " ++ name.text ++ " at position " ++ toString position
  | .incomplete position =>
    "only matched " ++ toString position ++ " of " ++ toString input.size ++ " symbols"
  | .remark text => text

/-- The line for a message: four blanks for each open application, and a line feed at its end. -/
def Message.line (input : Input) (message : Message) : String :=
  "".pushn ' ' (4 * message.depth.toNat) ++ message.event.text input ++ "\n"

def renderTrace (input : Input) (messages : List Message) : String :=
  String.join (messages.map (·.line input))

end SeedPeg
