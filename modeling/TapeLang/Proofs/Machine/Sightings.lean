import TapeLang.Proofs.Machine.Lockstep

/-!
# What a watcher sees of a run

A watcher who only records changes nothing about a run, and makes one sighting for every counted
instruction (`Machine.run_recording`). A watcher who also has a limit halts the run at that many
sightings, which are the first ones of the whole run (`Machine.run_recording_take`), and notices no
limit that is never reached (`Machine.run_recording_of_lt`).

So the machine right after an executed instruction is the one that such a watcher leaves behind, and
`Machine.Passes` refers to it by the sightings made up to there.
-/

set_option autoImplicit false

namespace TapeLang

/-! ## Watchers who record -/

namespace Watcher

variable (seen : Array Sighting) (m : Machine) (i : Instruction)

theorem after_recording_none :
    (recording none).after seen m i = (seen.push (m.sighting i), false) := rfl

theorem after_recording_some (limit : Nat) :
    (recording (some limit)).after seen m i =
      (seen.push (m.sighting i), decide (limit ≤ seen.size + 1)) := by
  simp [after, recording]

end Watcher

/-- A watcher who records and one who does not see the same run. -/
theorem simulation_recording :
    Simulation .idle (.recording none) .same (fun _ => True) fun m _ m' _ => m' = m where
  within _ := trivial
  cell_eq := by
    rintro m _ m' _ rfl
    rfl
  iterate := by
    rintro m _ m' _ rfl
    rfl
  accepts := by
    rintro m _ m' _ i rfl ho _
    exact ho
  halts_eq := by
    intro m _ m' _ i _ _ _
    rfl
  perform := by
    rintro m _ m' _ i rfl _ _
    rfl

/-- A limit makes no difference before it is reached. -/
theorem simulation_limit (limit : Nat) :
    Simulation (.recording none) (.recording (some limit)) .same (fun seen => seen.size < limit)
      fun m seen m' seen' => m' = m ∧ seen' = seen where
  within := by
    intro m seen i h
    rw [Watcher.after_recording_none, Array.size_push] at h
    omega
  cell_eq := by
    rintro m seen m' seen' ⟨rfl, -⟩
    rfl
  iterate := by
    rintro m seen m' seen' ⟨rfl, rfl⟩
    exact ⟨rfl, rfl⟩
  accepts := by
    rintro m seen m' seen' i ⟨rfl, rfl⟩ ho _
    exact ho
  halts_eq := by
    rintro m seen m' seen' i ⟨rfl, rfl⟩ _ hw
    rw [Watcher.after_recording_none, Array.size_push] at hw
    rw [Watcher.after_recording_none, Watcher.after_recording_some]
    exact decide_eq_false (by omega)
  perform := by
    rintro m seen m' seen' i ⟨rfl, rfl⟩ _ _
    rw [Watcher.after_recording_none, Watcher.after_recording_some]
    exact ⟨rfl, rfl⟩

/-- Every executed instruction is counted. -/
theorem Machine.steps_perform (m : Machine) (i : Instruction) :
    (m.perform i).stats.steps = m.stats.steps + 1 := by
  obtain ⟨tape, input, output, sink, stats⟩ := m
  obtain ⟨command, index, offset⟩ := i
  cases command with
  | moveLeft | moveRight | increment | decrement | output | loopOpen | loopClose => rfl
  | input => cases input <;> rfl

namespace Course

variable {fuel : Nat} {frames : List Frame} {m : Machine} {seen : Array Sighting}
  {r : Run (Array Sighting)}

/-- What was recorded before a run is still there at its end. -/
theorem exists_later (h : Course (.recording none) fuel frames m seen r) :
    ∃ later, r.watched = seen ++ later := by
  have hkept := h.invariant (I := fun _ s => ∃ later, s = seen ++ later) (fun hI => hI) ?_
    ⟨#[], by simp⟩
  · obtain ⟨m', hI, -⟩ := hkept
    exact hI
  · rintro m s i ⟨later, rfl⟩ _
    exact ⟨later.push (m.sighting i), by simp [Watcher.after_recording_none]⟩

/-- There is one sighting for every counted instruction. -/
theorem steps_recorded (h : Course (.recording none) fuel frames m seen r) :
    m.stats.steps + r.watched.size = r.machine.stats.steps + seen.size := by
  have hkept := h.invariant
    (I := fun m' s => m.stats.steps + s.size = m'.stats.steps + seen.size) (fun hI => hI) ?_ rfl
  · obtain ⟨m', hI, hmachine⟩ := hkept
    rw [hmachine]
    cases r.ending <;> exact hI
  · intro m' s i hI _
    rw [Watcher.after_recording_none, Array.size_push, m'.steps_perform i]
    omega

/-- A watcher with a limit halts a run that is long enough, after as many of its sightings. -/
theorem halts_at (h : Course (.recording none) fuel frames m seen r) {limit : Nat}
    (hlow : seen.size < limit) (hhigh : limit ≤ r.watched.size) :
    ∃ m', Execution.run (.recording (some limit)) fuel ⟨frames, m, seen⟩ =
      ⟨.halted, m', (r.watched.toList.take limit).toArray⟩ := by
  induction h with
  | out | finish | refused => exact absurd hhigh (Nat.not_le_of_lt hlow)
  | proceed hd _ ih =>
      rw [Course.run_eq (.proceed hd (course_run ..))]
      exact ih hlow hhigh
  | pass hd _ ih =>
      rw [Course.run_eq (.pass hd (course_run ..))]
      exact ih hlow hhigh
  | halted _ _ ha => simp [Watcher.after_recording_none] at ha
  | @executed fuel frames frames' m seen seen' i r hd ho ha hcourse ih =>
      rw [Watcher.after_recording_none, Prod.mk.injEq] at ha
      obtain ⟨rfl, -⟩ := ha
      by_cases hlast : limit = seen.size + 1
      · -- this sighting is the last one that the limit permits
        have hafter : (Watcher.recording (some limit)).after seen m i =
            (seen.push (m.sighting i), true) := by
          rw [Watcher.after_recording_some, decide_eq_true (by omega)]
        refine ⟨m.perform i, ?_⟩
        rw [Course.run_eq (.halted hd ho hafter)]
        obtain ⟨later, hlater⟩ := hcourse.exists_later
        have hfirst : (seen.push (m.sighting i)).toList.length = limit := by simp [hlast]
        rw [hlater, Array.toList_append, List.take_left' hfirst]
      · have hafter : (Watcher.recording (some limit)).after seen m i =
            (seen.push (m.sighting i), false) := by
          rw [Watcher.after_recording_some, decide_eq_false (by omega)]
        rw [Course.run_eq (.executed hd ho hafter (course_run ..))]
        apply ih
        · rw [Array.size_push]
          omega
        · exact hhigh

end Course

namespace Machine

variable {m : Machine} {p : Program} {fuel : Nat} {ending : Ending} {m' : Machine}
  {seen : List Sighting}

/-- The run of a program makes the given sightings, and the machine after the last of them is `m'`:
so a watcher finds it who halts the run there. -/
def Passes (m : Machine) (p : Program) (seen : List Sighting) (m' : Machine) : Prop :=
  ∃ fuel, m.run (.recording (some seen.length)) #[] fuel p = ⟨.halted, m', seen.toArray⟩

/-- **Recording changes nothing about a run, and misses no counted instruction.** -/
theorem run_recording (h : m.run .idle () fuel p = ⟨ending, m', ()⟩) :
    ∃ seen : List Sighting, m.run (.recording none) #[] fuel p = ⟨ending, m', seen.toArray⟩ ∧
      m.stats.steps + seen.length = m'.stats.steps := by
  obtain ⟨m₁, _, seen, rfl, hmachine, hrun⟩ :=
    simulation_recording.run_of_refuses (f := id) (fun hm ho => hm ▸ ho)
      p.body.relabel_same.symm (t := #[]) rfl h trivial
  have hrecorded : m.run (.recording none) #[] fuel p = ⟨ending, m', seen⟩ := by
    rw [hrun, Ending.map_id, ← hmachine]
  refine ⟨seen.toList, hrecorded, ?_⟩
  exact (course_of_run hrecorded).steps_recorded

/-- A recorded run is a run that is not recorded. -/
theorem run_of_recorded {seen : Array Sighting}
    (h : m.run (.recording none) #[] fuel p = ⟨ending, m', seen⟩) :
    m.run .idle () fuel p = ⟨ending, m', ()⟩ := by
  obtain ⟨seen', hrecorded, -⟩ := run_recording (Eq.refl (m.run .idle () fuel p))
  rw [h, Run.mk.injEq] at hrecorded
  obtain ⟨rfl, rfl, -⟩ := hrecorded
  rfl

/-- **A limit stops a run after the first of its sightings.** -/
theorem run_recording_take (h : m.run (.recording none) #[] fuel p = ⟨ending, m', seen.toArray⟩)
    {limit : Nat} (hpos : 0 < limit) (hle : limit ≤ seen.length) :
    ∃ m₁, m.run (.recording (some limit)) #[] fuel p =
      ⟨.halted, m₁, (seen.take limit).toArray⟩ :=
  (course_of_run h).halts_at hpos hle

/-- A limit that is not reached is not noticed. -/
theorem run_recording_of_lt (h : m.run (.recording none) #[] fuel p = ⟨ending, m', seen.toArray⟩)
    {limit : Nat} (hlt : seen.length < limit) :
    m.run (.recording (some limit)) #[] fuel p = ⟨ending, m', seen.toArray⟩ := by
  obtain ⟨m₁, _, _, ⟨rfl, rfl⟩, hmachine, hrun⟩ :=
    (simulation_limit limit).run_of_refuses (f := id) (fun hm ho => hm.1 ▸ ho)
      p.body.relabel_same.symm ⟨rfl, rfl⟩ h hlt
  rw [hrun, Ending.map_id, ← hmachine]

end Machine

end TapeLang
