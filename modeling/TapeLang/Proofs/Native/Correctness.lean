import TapeLang.Proofs.Machine.Room
import TapeLang.Proofs.Machine.Structured
import TapeLang.Proofs.Native.Endings

/-!
# Correctness of generated listings

A generated listing, assembled and executed, does what its program does on a fresh machine. The two
share one of three fates (`Fate`): the program finishes and the process exits with status zero, a
fault stops the program and the process reports it and exits with status one, or neither ends.
Since both go one way only, each side tells what the other does (`Implements`).

The main statement is `listing_implements_program`. It holds for every program text that can be
read, every tape configuration whose length is a number, with and without comments in the listing,
wherever the data is put, whatever the platform leaves behind in registers, and for every input.
-/

set_option autoImplicit false

namespace TapeLang.Native

open Assembly

variable {platform : Platform} {image : Image} {config : TapeConfig} {base : Nat} {annotate : Bool}
  {start : Process} {p : Program} {m : Machine}

/-! ## The specification -/

/-- The process does what the run of a program on a machine does. -/
structure Implements (platform : Platform) (image : Image) (start : Process) (p : Program)
    (m : Machine) : Prop where
  /-- It exits with status zero exactly if the run finishes. -/
  exits_zero_iff : (∃ c, start.Exits platform image 0 c) ↔
    ∃ fuel m', m.run .idle () fuel p = ⟨.finished, m', ()⟩
  /-- It then leaves the output, the rest of the input, the cells and the pointer of the run. -/
  finished : ∀ {c fuel m'}, start.Exits platform image 0 c →
    m.run .idle () fuel p = ⟨.finished, m', ()⟩ → Mirrors image m' c ∧ c.stderr = []
  /-- It comes to the routine of an edge with an index in `r13` exactly if the run is stopped at
  that edge by the instruction with that index. -/
  at_edge_iff : ∀ (e : Edge) (index : Int),
    (∃ q, start.Reaches platform image q ∧ q.At image (.edge e) ∧ q.cpu.r13.toInt = index) ↔
      ∃ fuel pointer m', m.run .idle () fuel p = ⟨.blocked (.fault (.edge e index pointer)), m', ()⟩
  /-- There it has the output, the rest of the input, the cells and the pointer of the run. -/
  refused : ∀ {q e fuel o m'}, start.Reaches platform image q → q.At image (.edge e) →
    m.run .idle () fuel p = ⟨.blocked o, m', ()⟩ →
      o = .fault (.edge e q.cpu.r13.toInt m'.tape.pointer) ∧ Mirrors image m' q.cpu
  /-- It exits with status one exactly if something stops the run. -/
  exits_one_iff : (∃ c, start.Exits platform image 1 c) ↔
    ∃ fuel o m', m.run .idle () fuel p = ⟨.blocked o, m', ()⟩
  /-- That is a fault, and its message is on the error stream. -/
  reported : ∀ {c fuel o m'}, start.Exits platform image 1 c →
    m.run .idle () fuel p = ⟨.blocked o, m', ()⟩ →
      ∃ f, o = .fault f ∧ Mirrors image m' c ∧ c.stderr = bytesOf (f.message ++ "\n")
  /-- It runs forever exactly if the run never ends. -/
  runsForever_iff : start.RunsForever platform image ↔
    ∀ fuel, (m.run .idle () fuel p).ending = .outOfFuel
  /-- There is no other status. -/
  status : ∀ {status c}, start.Exits platform image status c → status = 0 ∨ status = 1
  /-- It never comes to a line that it cannot execute. -/
  safe : ∀ {q}, start.Reaches platform image q → q.step? platform image ≠ none

/-! ## Fates -/

/-- How a process and a run end, or that they do not. -/
inductive Fate (platform : Platform) (image : Image) (start : Process) (e : Execution Unit) :
    Prop where
  | finished {m' : Machine} {c : Cpu} :
      e.Ends .idle ⟨.finished, m', ()⟩ → start.Exits platform image 0 c → Mirrors image m' c →
        c.stderr = [] → Fate platform image start e
  | refused {edge : Edge} {index : Int} {m' : Machine} {q : Process} {c : Cpu} :
      e.Ends .idle ⟨.blocked (.fault (.edge edge index m'.tape.pointer)), m', ()⟩ →
        start.Reaches platform image q → q.At image (.edge edge) → q.cpu.r13.toInt = index →
          Mirrors image m' q.cpu → start.Exits platform image 1 c → Mirrors image m' c →
            c.stderr = bytesOf ((Fault.edge edge index m'.tape.pointer).message ++ "\n") →
              Fate platform image start e
  | endless :
      e.Endless .idle → start.RunsForever platform image → Fate platform image start e

theorem toInt_register {k : Nat} (hk : k < 2 ^ 63) : (BitVec.ofNat 64 k).toInt = k := by
  have hnat := toNat_address (a := k) (by omega)
  rw [BitVec.toInt_eq_toNat_of_lt (by omega), hnat]

/-- **A process and the run that it follows share their fate.** -/
theorem Matches.fate (hl : Loaded image config base) {e : Execution Unit} {q : Process}
    (h : Matches image config base annotate e q) (hq : start.Reaches platform image q) :
    Fate platform image start e := by
  by_cases hendless : e.Endless .idle
  · exact .endless hendless (.of_reaches hq (h.runsForever platform hl hendless))
  · obtain ⟨r, hends⟩ := Execution.not_endless_iff.1 hendless
    obtain ⟨last, hmoves, hstep⟩ := Execution.ends_iff_moves.1 hends
    -- the process follows the run up to its last move
    obtain ⟨q', hq', h'⟩ := h.reaches platform hl hmoves
    rcases Execution.ended_cases hstep with
      ⟨hframes, rfl⟩ | ⟨i, rest, again, outer, o, hframes, ho, rfl⟩
    · obtain ⟨c, hexits, ha⟩ := h'.exits_zero platform hl hframes
      have ha' : Agrees image config base last.machine.settle c :=
        ha.onStats fun s => { s with finalPointer := last.machine.tape.pointer }
      exact .finished hends (.of_reaches (hq.trans hq') hexits)
        (ha'.mirrors hl rfl rfl rfl fun _ _ _ => rfl) ha.stderr_eq
    · obtain ⟨edge, k, q'', hk, hw, rfl, hreaches, hat, hr13, ha⟩ :=
        h'.reaches_edge platform hl hframes ho
      obtain ⟨c, hexits, hmirrors, hstderr⟩ := ha.exits_one platform hl hat hk hr13 _
      have hthere := hq.trans (hq'.trans hreaches)
      have hindex : q''.cpu.r13.toInt = k := by
        rw [hr13, toInt_register hk]
      exact .refused hends hthere hat hindex (ha.mirrors hl rfl rfl rfl fun _ _ _ => rfl)
        (.of_reaches hthere hexits) hmirrors hstderr

namespace Fate

variable {e : Execution Unit}

/-- What the end of the process tells about the run. -/
theorem of_exits (h : Fate platform image start e) {status : Nat} {c : Cpu}
    (hc : start.Exits platform image status c) :
    (status = 0 ∧ ∃ m', e.Ends .idle ⟨.finished, m', ()⟩ ∧ Mirrors image m' c ∧ c.stderr = []) ∨
      (status = 1 ∧ ∃ f m', e.Ends .idle ⟨.blocked (.fault f), m', ()⟩ ∧ Mirrors image m' c ∧
        c.stderr = bytesOf (f.message ++ "\n")) := by
  cases h with
  | @finished m' c' hends hexits hmirrors hstderr =>
      obtain ⟨rfl, rfl⟩ := hc.unique hexits
      exact .inl ⟨rfl, m', hends, hmirrors, hstderr⟩
  | @refused edge index m' q c' hends _ _ _ _ hexits hmirrors hstderr =>
      obtain ⟨rfl, rfl⟩ := hc.unique hexits
      exact .inr ⟨rfl, _, m', hends, hmirrors, hstderr⟩
  | endless _ hforever => exact absurd hc (hforever.not_exits status c)

/-- What a visit to the routine of an edge tells about the run. -/
theorem of_at (h : Fate platform image start e) (hl : Loaded image config base) {q : Process}
    {edge : Edge} (hq : start.Reaches platform image q) (hat : q.At image (.edge edge)) :
    ∃ m', e.Ends .idle
        ⟨.blocked (.fault (.edge edge q.cpu.r13.toInt m'.tape.pointer)), m', ()⟩ ∧
      Mirrors image m' q.cpu := by
  -- whatever the state, the routine leads to status one
  obtain ⟨c, hc⟩ := exits_of_at platform hl hat
  have hone : start.Exits platform image 1 c := .of_reaches hq hc
  cases h with
  | finished _ hexits => cases (hone.unique hexits).1
  | endless _ hforever => exact absurd hone (hforever.not_exits 1 c)
  | @refused edge' index m' q' c' hends hq' hat' hindex hmirrors _ _ _ =>
      -- both are on the one way of the process, which visits one routine once
      have hsame : q = q' ∧ edge = edge' := by
        rcases hq'.total_of_right_unique Process.moves_rightUnique hq with hlate | hearly
        · exact hl.eq_of_at hat' hat hlate
        · obtain ⟨hprocess, hedge⟩ := hl.eq_of_at hat hat' hearly
          exact ⟨hprocess.symm, hedge.symm⟩
      obtain ⟨rfl, rfl⟩ := hsame
      rw [hindex]
      exact ⟨m', hends, hmirrors⟩

/-- What the end of the run tells about the process. -/
theorem of_ends (h : Fate platform image start e) {r : Run Unit} (hr : e.Ends .idle r) :
    (r.ending = .finished ∧ ∃ c, start.Exits platform image 0 c) ∨
      ∃ edge index, r.ending = .blocked (.fault (.edge edge index r.machine.tape.pointer)) ∧
        (∃ c, start.Exits platform image 1 c) ∧
          ∃ q, start.Reaches platform image q ∧ q.At image (.edge edge) ∧
            q.cpu.r13.toInt = index := by
  cases h with
  | finished hends hexits =>
      obtain rfl := hr.unique hends
      exact .inl ⟨rfl, _, hexits⟩
  | refused hends hq hat hindex _ hexits =>
      obtain rfl := hr.unique hends
      exact .inr ⟨_, _, rfl, ⟨_, hexits⟩, _, hq, hat, hindex⟩
  | endless hendless => exact absurd hendless (Execution.not_endless_iff.2 ⟨r, hr⟩)

theorem runsForever_iff (h : Fate platform image start e) :
    start.RunsForever platform image ↔ e.Endless .idle := by
  cases h with
  | finished hends hexits =>
      exact iff_of_false (fun hforever => hforever.not_exits _ _ hexits)
        (Execution.not_endless_iff.2 ⟨_, hends⟩)
  | refused hends _ _ _ _ hexits =>
      exact iff_of_false (fun hforever => hforever.not_exits _ _ hexits)
        (Execution.not_endless_iff.2 ⟨_, hends⟩)
  | endless hendless hforever => exact iff_of_true hforever hendless

theorem safe (h : Fate platform image start e) {q : Process}
    (hq : start.Reaches platform image q) : q.step? platform image ≠ none := by
  cases h with
  | finished _ hexits => exact hexits.step?_ne_none hq
  | refused _ _ _ _ _ hexits => exact hexits.step?_ne_none hq
  | endless _ hforever =>
      obtain ⟨q', hmove⟩ := hforever q hq
      exact hmove.step?_ne_none

end Fate

/-- A run that ends was permitted enough moves. -/
theorem ends_of_run {fuel : Nat} {r : Run Unit} (h : m.run .idle () fuel p = r)
    (hr : r.ending ≠ .outOfFuel) : Execution.Ends .idle ⟨[{ rest := p.body }], m, ()⟩ r :=
  (m.exists_run_iff_ends p r hr).1 ⟨fuel, h⟩

/-- **A shared fate is all that the specification asks for.** -/
theorem Fate.implements (hl : Loaded image config base)
    (h : Fate platform image start ⟨[{ rest := p.body }], m, ()⟩) :
    Implements platform image start p m where
  exits_zero_iff := by
    constructor
    · rintro ⟨c, hc⟩
      rcases h.of_exits hc with ⟨-, m', hends, -⟩ | ⟨hstatus, -⟩
      · obtain ⟨fuel, hrun⟩ := (m.exists_run_iff_ends p _ (by simp)).2 hends
        exact ⟨fuel, m', hrun⟩
      · cases hstatus
    · rintro ⟨fuel, m', hrun⟩
      rcases h.of_ends (ends_of_run hrun (by simp)) with ⟨-, hexits⟩ | ⟨_, _, hending, -⟩
      · exact hexits
      · cases hending
  finished := by
    intro c fuel m' hc hrun
    rcases h.of_exits hc with ⟨-, m'', hends, hstate⟩ | ⟨hstatus, -⟩
    · cases hends.unique (ends_of_run hrun (by simp))
      exact hstate
    · cases hstatus
  at_edge_iff := by
    intro edge index
    constructor
    · rintro ⟨q, hq, hat, rfl⟩
      obtain ⟨m', hends, -⟩ := h.of_at hl hq hat
      obtain ⟨fuel, hrun⟩ := (m.exists_run_iff_ends p _ (by simp)).2 hends
      exact ⟨fuel, _, m', hrun⟩
    · rintro ⟨fuel, pointer, m', hrun⟩
      rcases h.of_ends (ends_of_run hrun (by simp)) with ⟨hending, -⟩ | ⟨_, _, hending, -, hvisit⟩
      · cases hending
      · simp only [Ending.blocked.injEq, Obstacle.fault.injEq, Fault.edge.injEq] at hending
        obtain ⟨rfl, rfl, -⟩ := hending
        exact hvisit
  refused := by
    intro q edge fuel o m' hq hat hrun
    obtain ⟨m'', hends, hmirrors⟩ := h.of_at hl hq hat
    cases hends.unique (ends_of_run hrun (by simp))
    exact ⟨rfl, hmirrors⟩
  exits_one_iff := by
    constructor
    · rintro ⟨c, hc⟩
      rcases h.of_exits hc with ⟨hstatus, -⟩ | ⟨-, f, m', hends, -⟩
      · cases hstatus
      · obtain ⟨fuel, hrun⟩ := (m.exists_run_iff_ends p _ (by simp)).2 hends
        exact ⟨fuel, _, m', hrun⟩
    · rintro ⟨fuel, o, m', hrun⟩
      rcases h.of_ends (ends_of_run hrun (by simp)) with ⟨hending, -⟩ | ⟨_, _, -, hexits, -⟩
      · cases hending
      · exact hexits
  reported := by
    intro c fuel o m' hc hrun
    rcases h.of_exits hc with ⟨hstatus, -⟩ | ⟨-, f, m'', hends, hstate⟩
    · cases hstatus
    · cases hends.unique (ends_of_run hrun (by simp))
      exact ⟨f, rfl, hstate⟩
  runsForever_iff := h.runsForever_iff
  status := by
    intro status c hc
    rcases h.of_exits hc with ⟨hstatus, -⟩ | ⟨hstatus, -⟩
    · exact .inl hstatus
    · exact .inr hstatus
  safe := h.safe

/-! ## The program of a text -/

/-- The instructions of a text have code, and their indices fit into a register. -/
theorem encodable_of_parse {source : String} (hparse : (parse source).value = .ok p)
    (hcount : p.instructionCount < 2 ^ 63) : p.body.All Encodable := by
  obtain ⟨hnumbered, hlength⟩ := numberedFrom_of_parse hparse
  obtain ⟨-, -, hfree⟩ := flatten_of_nestLogged (parse_value source ▸ hparse)
  refine hfree.and (Body.all_of_flatten ?_)
  intro i hi
  obtain ⟨hlow, hhigh⟩ := hnumbered.index_of_mem hi
  exact ⟨i.index.toNat, by omega, by omega⟩

/-- **The listing of a program does what the program does.** Every program text that can be read
and has fewer than `2 ^ 63` instructions has a listing for every tape whose length is a number. The
listing can be assembled, and wherever its data is put and on whatever platform, its process shows
what the run of the program on a fresh machine with the same input shows. -/
theorem listing_implements_program (source : String) (p : Program)
    (hparse : (parse source).value = .ok p) (hcount : p.instructionCount < 2 ^ 63) (g : Generator)
    (cells : Nat) (hlength : g.config.length = .number cells) :
    ∃ listing, (g.generate p).2 = .ok listing ∧
      (∀ origin ≤ 2 ^ 63, (assemble? origin listing).isSome = true) ∧
      ∀ (origin : Nat) (image : Image), assemble? origin listing = some image →
        ∀ (platform : Platform) (input : List UInt8) (hasSink : Bool),
          ∃ start, image.start? platform input = some start ∧
            Implements platform image start p (Machine.start g.config input hasSink) := by
  obtain ⟨-, -, hfree⟩ := flatten_of_nestLogged (parse_value source ▸ hparse)
  refine ⟨_, g.generate_eq hfree, ?_, ?_⟩
  · intro origin horigin
    exact isSome_assemble? hlength horigin g.annotate p.body
  · intro origin image himage platform input hasSink
    obtain ⟨hlisting, base, hl⟩ := loaded_of_assemble? hlength himage
    obtain ⟨start, q, hstart, hreaches, hmatches⟩ :=
      start_matches hl (encodable_of_parse hparse hcount) hlisting platform input hasSink
    exact ⟨start, hstart, (hmatches.fate hl hreaches).implements hl⟩

/-- On a tape of two cells the process of the sweep reports its third instruction. -/
theorem listing_implements_sweep :
    (parse "+[>+]").value = .ok .sweep ∧ Program.sweep.instructionCount < 2 ^ 63 ∧
      ∃ listing,
        (({ config := { length := .number 2 } } : Generator).generate .sweep).2 = .ok listing ∧
          ∃ image, assemble? 4096 listing = some image ∧
            ∀ (platform : Platform) (input : List UInt8), ∃ start c,
              image.start? platform input = some start ∧ start.Exits platform image 1 c ∧
                c.stderr = bytesOf "pointer moved past upper bound at instruction 2\n" := by
  have hparse : (parse "+[>+]").value = .ok .sweep := rfl
  obtain ⟨listing, hgenerate, hassemble, himplements⟩ :=
    listing_implements_program "+[>+]" .sweep hparse (by decide)
      { config := { length := .number 2 } } 2 rfl
  obtain ⟨image, himage⟩ := Option.isSome_iff_exists.1 (hassemble 4096 (by decide))
  refine ⟨hparse, by decide, listing, hgenerate, image, himage, ?_⟩
  intro platform input
  obtain ⟨start, hstart, himpl⟩ := himplements 4096 image himage platform input false
  obtain ⟨m', hrun⟩ : ∃ m', (Machine.start { length := .number 2 } input false).run .idle () 8
      .sweep = ⟨.blocked (.fault (.edge .pointerOverflow 2 1)), m', ()⟩ := ⟨_, rfl⟩
  obtain ⟨c, hexits⟩ := himpl.exits_one_iff.2 ⟨8, _, m', hrun⟩
  obtain ⟨f, hf, -, hstderr⟩ := himpl.reported hexits hrun
  cases hf
  exact ⟨start, c, hstart, hexits, hstderr⟩

end TapeLang.Native
