import TapeLang.Proofs.Generator.Scheme
import TapeLang.Proofs.Session.Concatenation

/-!
# The stages of the toolchain

The toolchain notes events on the way, and the events do not influence its results. A text that is
no program comes to its fault in every stage. A text that is a program is run on a fresh machine
(`value_interpretWatched_of_ok`), or its listing is generated by the scheme
(`value_compile_of_ok`).
-/

set_option autoImplicit false

namespace TapeLang

variable {source : String} {p : Program}

/-- A text that is no program is not run. -/
theorem value_interpretWatched_of_error {σ : Type} (watcher : Watcher σ) (watched : σ) (fuel : Nat)
    {f : Fault} (h : (parse source).value = .error f) (config : TapeConfig) (input : List UInt8)
    (hasSink : Bool) :
    (interpretWatched watcher watched fuel source config input hasSink).value =
      ⟨some (.fault f), .start config input hasSink, watched⟩ := by
  rw [interpretWatched, Logged.value_bind, h]
  rfl

/-- What a run came to, as the toolchain reports it. -/
def Run.interpretation {σ : Type} (r : Run σ) : Interpretation σ :=
  ⟨r.ending.failure?, r.machine, r.watched⟩

/-- A text that is a program is run on a fresh machine. -/
theorem value_interpretWatched_of_ok {σ : Type} (watcher : Watcher σ) (watched : σ) (fuel : Nat)
    (h : (parse source).value = .ok p) (config : TapeConfig) (input : List UInt8)
    (hasSink : Bool) :
    (interpretWatched watcher watched fuel source config input hasSink).value =
      ((Machine.start config input hasSink).run watcher watched fuel p).interpretation := by
  rw [interpretWatched, Logged.value_bind, h]
  show Run.interpretation (Machine.runLogged watcher watched fuel p _).value = _
  rw [Machine.value_runLogged]

/-- A trace is an interpretation that is recorded. -/
theorem value_trace (fuel : Nat) (source : String) (config : TapeConfig) (input : List UInt8) :
    (trace fuel source config input).value =
      (interpretWatched (.recording none) #[] fuel source config input false).value := by
  rw [trace, Logged.value_bind]

/-- What is left of an interpretation for who asked for it: output and counters, or the failure. -/
def Interpretation.result {σ : Type} (t : Interpretation σ) :
    Except Failure (Array UInt8 × Stats) :=
  match t.failure with
  | none => .ok (t.machine.output, t.machine.stats)
  | some failure => .error failure

/-- The trace that is made of a recorded interpretation. -/
def Interpretation.executionTrace (t : Interpretation (Array Sighting)) : ExecutionTrace where
  steps := numbered t.watched
  stats := t.machine.stats
  output := t.machine.output

/-- The trace of a text is made of its recorded interpretation, unless that failed. -/
theorem value_executeTraced (fuel : Nat) (source : String) (config : TapeConfig)
    (input : List UInt8) :
    (executeTraced fuel source config input).value =
      (trace fuel source config input).value.result.map fun _ =>
        (trace fuel source config input).value.executionTrace := by
  rw [executeTraced, Logged.value_bind, Interpretation.result]
  cases (trace fuel source config input).value.failure <;> rfl

theorem value_countCommands (source : String) :
    (countCommands source).value = commandCounts (lex source) := by
  simp only [countCommands, lexLogged, Logged.value_bind, Logged.value_pure]

/-- A run is reported to end in a fault exactly if it is refused an instruction with that fault. -/
theorem Run.interpretation_eq_fault_iff {σ : Type} {r : Run σ} {f : Fault} {m : Machine} {s : σ} :
    r.interpretation = ⟨some (.fault f), m, s⟩ ↔ r = ⟨.blocked (.fault f), m, s⟩ := by
  obtain ⟨ending, m', s'⟩ := r
  have hfailure : some (Failure.fault f) = (Ending.blocked (.fault f)).failure? := rfl
  simp only [interpretation, Interpretation.mk.injEq, Run.mk.injEq]
  rw [hfailure, Ending.failure?_inj]

/-- The listing of a program is generated by the scheme. -/
theorem value_compile_of_ok (h : (parse source).value = .ok p) (config : TapeConfig)
    (annotate : Bool) :
    (compile source config annotate).value = .ok (listingOf config annotate p.body) := by
  have hfree := (flatten_of_nestLogged (parse_value source ▸ h)).2.2
  have hlisting := Generator.generate_eq { config, annotate } hfree
  simp only [compile, Generator.compile, Logged.value_bind, h]
  generalize hresult : Generator.generate { config, annotate } p = result at hlisting
  obtain ⟨g, listing⟩ := result
  obtain rfl : listing = _ := hlisting
  simp only [Generator.generateLogged, hresult]
  rfl

end TapeLang
