import TapeLang.Mode
import TapeLang.Nesting
import TapeLang.Tape.Config

/-!
# Journals

What happens on the way to a result is noted as events. An event has a level and comes from one
part of the library; its text is `Event.message`. `Logged` is a result together with the events
that led to it, in order, and events that led to a failure are kept as well.

Times in events are counted in ticks of `2 ^ -20` seconds, so that differences and sums are exact,
and shown in milliseconds with one place after the point.
-/

set_option autoImplicit false

namespace TapeLang

/-! ## Times -/

namespace Decimal

/-- The integer nearest to `num / den`; a half goes to the even neighbour. -/
def roundDiv (num den : Nat) : Nat :=
  let down := num / den
  match compare (2 * (num % den)) den with
  | .lt => down
  | .gt => down + 1
  | .eq => if down % 2 = 0 then down else down + 1

/-- The quotient `num / den` with one place after the point. The sign is that of the exact quotient,
so a small negative one is written `-0.0`. -/
def tenths (num : Int) (den : Nat) : String :=
  let rounded := roundDiv (num.natAbs * 10) den
  (if num < 0 then "-" else "") ++ toString (rounded / 10) ++ "." ++ toString (rounded % 10)

end Decimal

/-- A time or a span of time in ticks; a clock may run backwards. -/
abbrev Ticks := Int

/-- A number of ticks in milliseconds, with one place. -/
def Ticks.milliseconds (t : Ticks) : String :=
  Decimal.tenths (t * 1000) (Nat.pow 2 20)

/-! ## Events -/

/-- Something worth noting. -/
inductive Event where
  /-- A text was read into instructions. -/
  | lexed (instructions characters : Nat)
  /-- A loop is closed that was never opened. -/
  | strayClose (index : Int)
  /-- Loops are left open. -/
  | leftOpen (count : Nat) (innermost : Int)
  /-- The tape refused an operation. -/
  | refused (e : Edge) (index pointer : Int)
  /-- A run begins. -/
  | interpreting (instructions : Int) (policy : Policy) (cells : Nat)
  /-- A run finished. -/
  | interpreted (steps bytesWritten : Nat)
  /-- A listing was generated. -/
  | generated (lines loops : Nat) (policy : Policy)
  /-- A source is about to be compiled. -/
  | compiling (policy : Policy) (cells : Nat)
  /-- A source is about to be traced. -/
  | tracing (policy : Policy) (cells : Nat)
  /-- The pipeline has a tree. -/
  | nested (instructions : Int) (loops : Nat) (time : Ticks)
  /-- The pipeline is through. -/
  | completed (mode : Mode) (time : Ticks)
  deriving DecidableEq, Repr

/-- The parts of the library that note events. -/
inductive Part where
  | lexer | nesting | tape | machine | generator | toolchain | pipeline
  deriving DecidableEq, Repr

/-- How important an event is. -/
inductive Level where
  | debug | info
  deriving DecidableEq, Repr

namespace Event

/-- The part an event comes from. -/
def part : Event → Part
  | lexed .. => .lexer
  | strayClose _ | leftOpen .. => .nesting
  | refused .. => .tape
  | interpreting .. | interpreted .. => .machine
  | generated .. => .generator
  | compiling .. | tracing .. => .toolchain
  | nested .. | completed .. => .pipeline

/-- The level of an event. -/
def level : Event → Level
  | compiling .. | tracing .. | nested .. | completed .. => .info
  | _ => .debug

/-- The word for an edge at the beginning of a sentence. -/
def edgeTitle : Edge → String
  | .pointerUnderflow => "Pointer underflow"
  | .pointerOverflow => "Pointer overflow"
  | .cellUnderflow => "Cell underflow"
  | .cellOverflow => "Cell overflow"

/-- A tape configuration in a message. -/
def tapeText (policy : Policy) (cells : Nat) : String :=
  "policy=" ++ policy.word ++ ", tape=" ++ toString cells

/-- The text of an event. -/
def message : Event → String
  | lexed instructions characters =>
      "Lexed " ++ toString instructions ++ " instructions from " ++ toString characters
        ++ " source characters"
  | strayClose index => "Unmatched loop-close at instruction " ++ toString index
  | leftOpen count innermost =>
      toString count ++ " loop(s) left open; innermost at instruction " ++ toString innermost
  | refused e index pointer =>
      edgeTitle e ++ " at instruction " ++ toString index ++ " (pointer " ++ toString pointer
        ++ ")"
  | interpreting instructions policy cells =>
      "Interpreting " ++ toString instructions ++ " instructions (" ++ tapeText policy cells
        ++ ")"
  | interpreted steps bytesWritten =>
      "Interpretation finished: " ++ toString steps ++ " steps, " ++ toString bytesWritten
        ++ " bytes written"
  | generated lines loops policy =>
      "Generated " ++ toString lines ++ " body lines, " ++ toString loops ++ " loops (policy="
        ++ policy.word ++ ")"
  | compiling policy cells => "Compiling source (" ++ tapeText policy cells ++ ")"
  | tracing policy cells => "execute_traced: " ++ tapeText policy cells
  | nested instructions loops time =>
      "Front end produced " ++ toString instructions ++ " instructions, " ++ toString loops
        ++ " loops in " ++ time.milliseconds ++ "ms"
  | completed mode time => mode.title ++ " finished in " ++ time.milliseconds ++ "ms"

end Event

/-- The event that goes with an imbalance. -/
def Imbalance.event : Imbalance → Event
  | strayClose index => .strayClose index
  | leftOpen count innermost => .leftOpen count innermost

/-- The event that goes with a fault, if it comes from the tape. -/
def Fault.event? : Fault → Option Event
  | edge e index pointer => some (.refused e index pointer)
  | _ => none

/-! ## Results with events -/

/-- A result with the events that led to it. -/
structure Logged (α : Type) where
  events : List Event
  value : α

namespace Logged

instance : Monad Logged where
  pure a := ⟨[], a⟩
  bind x f :=
    let y := f x.value
    ⟨x.events ++ y.events, y.value⟩

instance : LawfulMonad Logged := LawfulMonad.mk' Logged
  (by intro α x; simp [Functor.map])
  (by intro α β a f; simp [bind, pure])
  (by intro α β γ x f g; simp [bind, List.append_assoc])

@[simp] theorem value_pure {α : Type} (a : α) : (pure a : Logged α).value = a := rfl

/-- Events do not influence the result. -/
@[simp] theorem value_bind {α β : Type} (x : Logged α) (f : α → Logged β) :
    (x >>= f).value = (f x.value).value := rfl

/-- Note an event. -/
def note (e : Event) : Logged Unit :=
  ⟨[e], ()⟩

/-- Note an event if there is one. -/
def note? : Option Event → Logged Unit
  | none => ⟨[], ()⟩
  | some e => note e

end Logged

end TapeLang
