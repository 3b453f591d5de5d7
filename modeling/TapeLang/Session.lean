import TapeLang.Toolchain

/-!
# Sessions

A session is a program with a machine that lives on: the tape, the streams and the counters keep
what one command did for the next. A command works on the tape, runs the program, or replaces it.
-/

set_option autoImplicit false

namespace TapeLang

/-! ## Commands to a tape -/

/-- Something to do with a tape. -/
inductive TapeCommand where
  | read
  | length
  | write (value : Int)
  | move (delta index : Int)
  | add (delta index : Int)
  | snapshot (start stop : Option Int)
  | nonzero
  deriving DecidableEq, Repr

/-- What a command to a tape yields. -/
inductive TapeReply where
  | done
  | number (n : Nat)
  | bytes (values : List UInt8)
  | cells (values : List (Nat × UInt8))
  deriving DecidableEq, Repr

/-- The tape after a change, or as it was with the fault that forbids the change. -/
def Tape.changed (t : Tape) : Except Fault Tape → Tape × Except Fault TapeReply
  | .ok t' => (t', .ok .done)
  | .error f => (t, .error f)

/-- Carry out a command on a tape. A refused command leaves the tape as it is. -/
def Tape.obey (t : Tape) : TapeCommand → Tape × Except Fault TapeReply
  | .read => (t, .ok (.number t.cell.toNat))
  | .length => (t, .ok (.number t.size))
  | .write value => (t.write value, .ok .done)
  | .move delta index => t.changed (t.move delta index)
  | .add delta index => t.changed (t.add delta index)
  | .snapshot start stop => (t, .ok (.bytes (t.snapshot start stop)))
  | .nonzero => (t, .ok (.cells t.nonzero))

/-- Carry out a command on a tape and note a refusal. -/
def Tape.obeyLogged (t : Tape) (c : TapeCommand) : Logged (Tape × Except Fault TapeReply) := do
  let (t, reply) := t.obey c
  match reply with
  | .ok _ => pure ()
  | .error f => Logged.note? f.event?
  return (t, reply)

/-! ## Commands to a session -/

/-- A program with a machine that lives on. -/
structure Session where
  program : Program
  machine : Machine
  deriving Repr

/-- Something to do in a session. -/
inductive SessionCommand where
  /-- Run the program from its beginning. -/
  | run
  /-- Replace the program. -/
  | install (program : Program)
  /-- Replace the program by that of a text. -/
  | load (source : String)
  /-- Work on the tape. -/
  | tape (c : TapeCommand)
  deriving DecidableEq, Repr

/-- What a command in a session yields. -/
inductive SessionReply (σ : Type) where
  /-- How the run ended, and what the watcher made of it. -/
  | ran (failure : Option Failure) (watched : σ)
  | installed
  | refused (f : Fault)
  | tape (reply : TapeReply)

namespace Session

/-- Begin a session: the text must be a program, and then the configuration must be valid. -/
def start (source : String) (config : Except ConfigError TapeConfig) (input : List UInt8) :
    Logged (Except Failure Session) := do
  match ← parse source with
  | .error f => return .error (.fault f)
  | .ok program =>
      match config with
      | .error e => return .error (.config e)
      | .ok config => return .ok { program, machine := .start config input true }

/-- Carry out a command in a session. The watcher starts afresh with every run. A refused command
changes nothing; in particular a text that is no program leaves the old program in place. -/
def obey {σ : Type} (watcher : Watcher σ) (watched : σ) (fuel : Nat) (s : Session) :
    SessionCommand → Logged (Session × SessionReply σ)
  | .run => do
      let r ← s.machine.runLogged watcher watched fuel s.program
      return ({ s with machine := r.machine }, .ran r.ending.failure? r.watched)
  | .install program => return ({ s with program }, .installed)
  | .load source => do
      match ← parse source with
      | .ok program => return ({ s with program }, .installed)
      | .error f => return (s, .refused f)
  | .tape c => do
      let (tape, reply) ← s.machine.tape.obeyLogged c
      let s := { s with machine := s.machine.onTape fun _ => tape }
      match reply with
      | .ok reply => return (s, .tape reply)
      | .error f => return (s, .refused f)

end Session

end TapeLang
