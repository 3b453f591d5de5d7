import TapeLang.Proofs.Machine.Sequence
import TapeLang.Proofs.Nesting.Concatenation
import TapeLang.Session

/-!
# Programs in one session

A session keeps its machine when the program is replaced. Running two texts one after the other in
one session is therefore running their concatenation (`sequence_is_concatenation`): the counters and
streams go on where they were, and only the labels differ.
-/

set_option autoImplicit false

namespace TapeLang

/-- A failure names the ending it comes from. -/
theorem Ending.failure?_inj {e e' : Ending} : e.failure? = e'.failure? ↔ e = e' := by
  constructor
  · intro h
    rcases e with _ | ⟨_ | _⟩ | _ | _ <;> rcases e' with _ | ⟨_ | _⟩ | _ | _ <;>
      simp_all [failure?]
  · rintro rfl
    rfl

/-- What is noted about a run does not change it. -/
theorem Machine.value_runLogged {σ : Type} (watcher : Watcher σ) (watched : σ) (fuel : Nat)
    (p : Program) (m : Machine) :
    (m.runLogged watcher watched fuel p).value = m.run watcher watched fuel p := by
  unfold runLogged
  generalize m.run watcher watched fuel p = r
  obtain ⟨ending, m', watched'⟩ := r
  rcases ending with _ | ⟨_ | _⟩ | _ | _ <;> rfl

namespace Session

/-- A run in the session, with enough moves, ends in a failure or in none, and leaves the session
behind as `s'`. -/
def Runs (s : Session) (failure : Option Failure) (s' : Session) : Prop :=
  ∃ fuel, (s.obey .idle () fuel .run).value = (s', .ran failure ())

/-- A run in the session uses up any number of moves. -/
def RunsForever (s : Session) : Prop :=
  ∀ fuel, ∃ s', (s.obey .idle () fuel .run).value = (s', .ran (some .outOfFuel) ())

/-- A run in a session is the run of its program on its machine. -/
theorem value_obey_run (s : Session) (fuel : Nat) :
    (s.obey .idle () fuel .run).value =
      ({ s with machine := (s.machine.run .idle () fuel s.program).machine },
        .ran (s.machine.run .idle () fuel s.program).ending.failure? ()) := by
  rw [obey, Logged.value_bind, Machine.value_runLogged]
  rfl

variable {s s' : Session}

/-- How a run in a session ends. -/
theorem runs_iff (ending : Ending) (hending : ending ≠ .outOfFuel) :
    s.Runs ending.failure? s' ↔
      s.machine.Ends s.program ⟨ending, s'.machine, ()⟩ ∧ s'.program = s.program := by
  constructor
  · rintro ⟨fuel, h⟩
    rw [value_obey_run, Prod.mk.injEq, SessionReply.ran.injEq, Ending.failure?_inj] at h
    obtain ⟨rfl, rfl, -⟩ := h
    exact ⟨⟨fuel, rfl, hending⟩, rfl⟩
  · rintro ⟨⟨fuel, hrun, -⟩, hprogram⟩
    have hrun' : s.machine.run .idle () fuel s.program = ⟨ending, s'.machine, ()⟩ := hrun
    refine ⟨fuel, ?_⟩
    rw [value_obey_run, hrun', ← hprogram]

theorem runs_none_iff :
    s.Runs none s' ↔
      s.machine.Ends s.program ⟨.finished, s'.machine, ()⟩ ∧ s'.program = s.program :=
  runs_iff .finished (by simp)

theorem runs_fault_iff {f : Fault} :
    s.Runs (some (.fault f)) s' ↔
      s.machine.Ends s.program ⟨.blocked (.fault f), s'.machine, ()⟩ ∧ s'.program = s.program :=
  runs_iff (.blocked (.fault f)) (by simp)

theorem runsForever_iff : s.RunsForever ↔ ¬ ∃ r, s.machine.Ends s.program r := by
  constructor
  · rintro hforever ⟨_, fuel, rfl, hending⟩
    obtain ⟨s', h⟩ := hforever fuel
    rw [value_obey_run, Prod.mk.injEq, SessionReply.ran.injEq] at h
    exact hending (Ending.failure?_inj.1 h.2.1)
  · intro hnone fuel
    have hending : (s.machine.run .idle () fuel s.program).ending = .outOfFuel := by
      refine Classical.byContradiction fun hending => ?_
      exact hnone ⟨_, fuel, rfl, hending⟩
    exact ⟨_, by rw [value_obey_run, hending]; rfl⟩

/-- A text that is a program replaces the program and nothing else. -/
theorem value_obey_load (s : Session) {source : String} {p : Program}
    (h : (parse source).value = .ok p) :
    (s.obey .idle () 0 (.load source)).value = ({ s with program := p }, .installed) := by
  rw [obey, Logged.value_bind, h]
  rfl

end Session

/-- **Running two texts in sequence is running their concatenation.** The concatenation of two
programs is a program; its tree is that of the first followed by that of the second, with the
indices of the second moved by the number of instructions before it and the offsets by the number of
characters before it.

If the first program finishes on a fresh machine, and the second one then takes its place and is run
on, the outcome is that of the whole on a fresh machine. If the second finishes, so does the whole,
with the same machine. If the second meets a fault, the whole meets the same fault, at an index that
is larger by the number of instructions before it; the machine is the same, but that no earlier run
has finished there. If the second runs forever, so does the whole.

If already the first program meets a fault or runs forever, so does the whole. -/
theorem sequence_is_concatenation (a b : String) (p q : Program) (hp : (parse a).value = .ok p)
    (hq : (parse b).value = .ok q) :
    ∃ whole : Program, (parse (a ++ b)).value = .ok whole ∧
      whole.body = p.body ++ q.body.relabel (.shift p.instructionCount a.length) ∧
      whole.instructionCount = p.instructionCount + q.instructionCount ∧
      ∀ (config : TapeConfig) (input : List UInt8) (hasSink : Bool),
        let fresh := Machine.start config input hasSink
        (∀ s₁, Session.Runs ⟨p, fresh⟩ none s₁ →
          ∃ s₂, (s₁.obey .idle () 0 (.load b)).value = (s₂, .installed) ∧
            (∀ m, s₂.Runs none ⟨q, m⟩ ↔ Session.Runs ⟨whole, fresh⟩ none ⟨whole, m⟩) ∧
            (∀ f m, s₂.Runs (some (.fault f)) ⟨q, m⟩ →
              ∃ f' : Fault, f'.kind = f.kind ∧ f'.pointer? = f.pointer? ∧
                f'.index = f.index + p.instructionCount ∧
                Session.Runs ⟨whole, fresh⟩ (some (.fault f')) ⟨whole, m.noting 0⟩) ∧
            (s₂.RunsForever ↔ Session.RunsForever ⟨whole, fresh⟩)) ∧
        (∀ f m, Session.Runs ⟨p, fresh⟩ (some (.fault f)) ⟨p, m⟩ →
          Session.Runs ⟨whole, fresh⟩ (some (.fault f)) ⟨whole, m⟩) ∧
        (Session.RunsForever ⟨p, fresh⟩ → Session.RunsForever ⟨whole, fresh⟩) := by
  refine ⟨_, parse_append hp hq, rfl, rfl, ?_⟩
  generalize hwhole : Program.mk _ _ = whole
  have hbody : whole.body = p.body ++ q.body.relabel (.shift p.instructionCount a.length) :=
    hwhole ▸ rfl
  have hshift := Relabelling.faithful_shift p.instructionCount a.length
  intro config input hasSink fresh
  refine ⟨?_, ?_, ?_⟩
  · intro s₁ h₁
    obtain ⟨hends, -⟩ := Session.runs_none_iff.1 h₁
    -- how the whole ends, in terms of the second run
    have hiff : ∀ r, fresh.Ends whole r ↔
        ∃ r₁, s₁.machine.Ends q r₁ ∧
          r₁.relabel (.shift p.instructionCount a.length) 0 = r :=
      fun r => Machine.ends_append_iff hshift hbody hends
    refine ⟨_, s₁.value_obey_load hq, ?_, ?_, ?_⟩
    · intro m
      rw [Session.runs_none_iff, Session.runs_none_iff, hiff]
      simp [Run.relabel_eq_finished_iff]
    · intro f m h
      obtain ⟨hends₂, -⟩ := Session.runs_fault_iff.1 h
      refine ⟨f.reindex (· + p.instructionCount), f.kind_reindex _, f.pointer?_reindex _,
        f.index_reindex _, ?_⟩
      rw [Session.runs_fault_iff, hiff]
      exact ⟨⟨_, hends₂, rfl⟩, rfl⟩
    · rw [Session.runsForever_iff, Session.runsForever_iff, not_iff_not]
      constructor
      · rintro ⟨r₁, h⟩
        exact ⟨_, (hiff _).2 ⟨r₁, h, rfl⟩⟩
      · rintro ⟨r, h⟩
        obtain ⟨r₁, hends₂, -⟩ := (hiff r).1 h
        exact ⟨r₁, hends₂⟩
  · intro f m h
    obtain ⟨hends, -⟩ := Session.runs_fault_iff.1 h
    exact Session.runs_fault_iff.2 ⟨Machine.ends_append_of_blocked hbody hends, rfl⟩
  · rw [Session.runsForever_iff, Session.runsForever_iff]
    rintro hforever ⟨r, hends⟩
    exact hforever (Machine.exists_ends_of_append hbody hends)

/-- The second of two texts moves below zero at its own instruction 1, which is instruction 3 of the
concatenation. -/
theorem faulty_sequence_is_faulty_concatenation :
    ∃ (p q : Program) (s₁ s₂ : Session) (m : Machine),
      (parse "+>").value = .ok p ∧ (parse "<<").value = .ok q ∧
      Session.Runs ⟨p, .start {} [] false⟩ none s₁ ∧
      (s₁.obey .idle () 0 (.load "<<")).value = (s₂, .installed) ∧
      s₂.Runs (some (.fault (.edge .pointerUnderflow 1 0))) ⟨q, m⟩ ∧
      ∃ (whole : Program) (f : Fault), (parse "+><<").value = .ok whole ∧ f.index = 3 ∧
        Session.Runs ⟨whole, .start {} [] false⟩ (some (.fault f)) ⟨whole, m.noting 0⟩ := by
  have hp : (parse "+>").value = .ok _ := rfl
  have hq : (parse "<<").value = .ok _ := rfl
  obtain ⟨whole, hwhole, -, -, hruns⟩ := sequence_is_concatenation "+>" "<<" _ _ hp hq
  obtain ⟨hfirst, -, -⟩ := hruns {} [] false
  obtain ⟨s₂, hload, -, hfault, -⟩ := hfirst _ ⟨9, rfl⟩
  obtain rfl := (Prod.mk.inj (hload.symm.trans (Session.value_obey_load _ hq))).1
  obtain ⟨f, -, -, hindex, hwhole'⟩ := hfault (.edge .pointerUnderflow 1 0) _ ⟨9, rfl⟩
  exact ⟨_, _, _, _, _, hp, hq, ⟨9, rfl⟩, hload, ⟨9, rfl⟩, whole, f, hwhole, hindex, hwhole'⟩

end TapeLang
