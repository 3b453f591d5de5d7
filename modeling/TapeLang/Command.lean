/-!
# The eight commands

A program of the tape language is a sequence of commands, each written as one symbol. Six of them
act on the tape or on the streams; the other two delimit loops. `Command.ofSymbol?` reads a symbol
back, and every character that is no symbol belongs to a comment.
-/

set_option autoImplicit false

namespace TapeLang

/-- A command of the tape language. -/
inductive Command where
  | moveLeft
  | moveRight
  | increment
  | decrement
  | output
  | input
  | loopOpen
  | loopClose
  deriving DecidableEq, Repr

namespace Command

/-- Every command, in the order of its declaration. -/
def all : List Command :=
  [moveLeft, moveRight, increment, decrement, output, input, loopOpen, loopClose]

/-- The character that writes the command. -/
def symbol : Command → Char
  | moveLeft => '<'
  | moveRight => '>'
  | increment => '+'
  | decrement => '-'
  | output => '.'
  | input => ','
  | loopOpen => '['
  | loopClose => ']'

/-- The command a character writes, if it writes one. -/
def ofSymbol? : Char → Option Command
  | '<' => some moveLeft
  | '>' => some moveRight
  | '+' => some increment
  | '-' => some decrement
  | '.' => some output
  | ',' => some input
  | '[' => some loopOpen
  | ']' => some loopClose
  | _ => none

/-- The name under which a command is counted. -/
def name : Command → String
  | moveLeft => "MOVE_LEFT"
  | moveRight => "MOVE_RIGHT"
  | increment => "INCREMENT"
  | decrement => "DECREMENT"
  | output => "OUTPUT"
  | input => "INPUT"
  | loopOpen => "LOOP_OPEN"
  | loopClose => "LOOP_CLOSE"

/-- The two loop delimiters; the other six commands are primitive. -/
def isDelimiter : Command → Bool
  | loopOpen | loopClose => true
  | _ => false

/-- A symbol reads back as the command it writes. -/
@[simp] theorem ofSymbol?_symbol (c : Command) : ofSymbol? c.symbol = some c := by
  cases c <;> rfl

/-- A character that reads as a command is its symbol. -/
theorem symbol_of_ofSymbol? {ch : Char} {c : Command} (h : ofSymbol? ch = some c) :
    c.symbol = ch := by
  revert h
  unfold ofSymbol?
  split <;> intro h <;> cases h <;> rfl

end Command

end TapeLang
