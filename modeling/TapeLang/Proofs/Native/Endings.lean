import Mathlib.Data.List.Basic
import TapeLang.Proofs.Native.Reporter
import TapeLang.Proofs.Native.Simulation

/-!
# Where a process starts and how it ends

The process of an image comes to the code of the program with a blank tape (`start_matches`). From
there it follows the run to its end, and ends as the run ends: a finished program ends the process
with status zero (`Matches.exits_zero`), a refused instruction leads to the routine of its edge
(`Matches.reaches_edge`), which ends the process with status one (`Agrees.exits_one`), and a run
that never ends keeps the process running (`Matches.runsForever`).
-/

set_option autoImplicit false

namespace TapeLang.Native

open Assembly

/-! ## What can be seen of a processor -/

/-- The processor has the streams, the pointer and the cells of the machine; the cells lie at the
address of the tape. -/
structure Mirrors (image : Image) (m : Machine) (c : Cpu) : Prop where
  stdout_eq : c.stdout = m.output.toList
  input_eq : c.input = m.input
  pointer_eq : c.r12.toNat = m.tape.pointer
  cells : ∃ a : Nat, image.symbols.lookup .tape = some (a : Int) ∧
    ∀ i < m.tape.size, c.memory (BitVec.ofNat 64 (a + i)) = m.tape.get i

section Endings

variable {platform : Platform} {image : Image} {config : TapeConfig} {base : Nat} {annotate : Bool}
  {e : Execution Unit} {p : Process} {m : Machine} {c c' : Cpu}

/-- Agreement is more than what can be seen; what can be seen survives whatever happens in front of
the tape. -/
theorem Agrees.mirrors (hl : Loaded image config base) (h : Agrees image config base m c)
    (hr12 : c'.r12 = c.r12) (hinput : c'.input = c.input) (hstdout : c'.stdout = c.stdout)
    (hmemory : ∀ a, base ≤ a → a < 2 ^ 64 →
      c'.memory (BitVec.ofNat 64 a) = c.memory (BitVec.ofNat 64 a)) : Mirrors image m c' := by
  have hcells := config.cells_lt
  have hlt := h.pointer_lt
  have hend := hl.blank.end_le
  have hfits := hl.fits
  rw [List.length_replicate] at hend
  refine ⟨hstdout.trans h.stdout_eq, hinput.trans h.input_eq, ?_, base, hl.tape_value, ?_⟩
  · rw [hr12, h.pointer_eq, toNat_address (by omega)]
  · intro i hi
    rw [Tape.size, h.config_eq] at hi
    rw [hmemory (base + i) (by omega) (by omega), h.cells i hi]

/-! ## The start -/

/-- **The process comes to the code of the program with a blank tape.** -/
theorem start_matches (hl : Loaded image config base) {b : Body} (hb : b.All Encodable)
    (hlisting : image.listing = listingOf config annotate b) (platform : Platform)
    (input : List UInt8) (hasSink : Bool) :
    ∃ p p', image.start? platform input = some p ∧ Process.Reaches platform image p p' ∧
      Matches image config base annotate
        ⟨[{ rest := b }], Machine.start config input hasSink, ()⟩ p' := by
  have hentry : .label .entryPoint :: load .rbx (.name .tape) :: binary .xor pointer pointer ::
      (b.code config annotate 0 ++ trailer config) <:+ image.listing := by
    rw [hlisting]
    exact ⟨(header config.length).take 18, rfl⟩
  have hcode : b.code config annotate 0 ++ trailer config <:+ image.listing :=
    .trans ⟨[_, _, _], rfl⟩ hentry
  have hstart := Image.start?_of_from? (from?_label hl.nodup hentry) platform input
  refine ⟨_, _, hstart, .head Process.moves_label (.head
    (Process.moves_operate (Image.operate?_load (.inr rfl) hl.tape_value hl.base_lt))
      (.single (Process.moves_operate (Image.operate?_clear (.inr rfl))))),
    .root hb hcode, rfl, ?_⟩
  refine ⟨rfl, rfl, rfl, config.one_le, ?_, ?_, rfl, rfl, rfl⟩
  · intro i hi
    have hblank := hl.blank.memory hl.fits platform (i := i) (by rwa [List.length_replicate])
    have hzero : (List.replicate config.length.cells (0 : UInt8)).getD i 0 = 0 := by
      simp
    show image.memory platform _ = (Tape.blank config).get i
    rw [hblank, hzero, Tape.get_blank]
  · intro a hlow hhigh
    have hend := hl.blank.end_le
    have hlt := hl.base_lt
    have hmapped : image.mapped (BitVec.ofNat 64 a) = true := by
      rw [Image.mapped, toNat_address (by omega), decide_eq_true_eq]
      omega
    show image.memory platform _ = _
    rw [Image.memory, if_pos hmapped, toNat_address (by omega)]

/-! ## The end of the program -/

/-- **A finished program ends the process with status zero.** -/
theorem Matches.exits_zero (platform : Platform) (hl : Loaded image config base)
    (h : Matches image config base annotate e p) (hframes : e.frames = []) :
    ∃ c, Process.Exits platform image p 0 c ∧ Agrees image config base e.machine c := by
  obtain ⟨frames, m, watched⟩ := e
  obtain ⟨code, returns, c⟩ := p
  obtain ⟨hf, rfl, ha⟩ := h
  obtain rfl : frames = [] := hframes
  cases hf with
  | through _ =>
      refine ⟨_, .of_reaches (.head Process.moves_blank
        (.head (moves_load (.inl rfl) (hl.value_constant 60 (by simp [constants])) (by decide))
          (.single (moves_load (.inl rfl) (hl.value_constant 0 (by simp [constants]))
            (by decide)))))
        (Process.exits_syscall (Image.systemCall?_exit rfl (by decide) rfl)), ?_⟩
      exact ha.of_eq rfl rfl rfl rfl rfl rfl

/-! ## Faults -/

/-- **A refused instruction leads to the routine of its edge.** -/
theorem Matches.reaches_edge (platform : Platform) (hl : Loaded image config base)
    (h : Matches image config base annotate e p) {i : Instruction} {rest : Body}
    {again : Option Body} {outer : List Frame} {o : Obstacle}
    (hframes : e.frames = ⟨.instr i rest, again⟩ :: outer)
    (ho : e.machine.obstacle? i = some o) :
    ∃ (edge : Edge) (k : Nat) (p' : Process), k < 2 ^ 63 ∧ config.wraps = false ∧
      o = .fault (.edge edge k e.machine.tape.pointer) ∧
      Process.Reaches platform image p p' ∧ p'.At image (.edge edge) ∧
      p'.cpu.r13 = BitVec.ofNat 64 k ∧ Agrees image config base e.machine p'.cpu := by
  obtain ⟨frames, m, watched⟩ := e
  obtain ⟨code, returns, c⟩ := p
  obtain ⟨hf, rfl, ha⟩ := h
  obtain rfl : frames = _ := hframes
  obtain ⟨n, after, rfl, ⟨⟨hi, k, hk, hindex⟩, hrest⟩, -, -⟩ := hf.inside
  obtain ⟨hw, edge, hedge, rfl⟩ := ha.refused hi ho
  rw [Body.code_instr_append]
  obtain ⟨lines, c', hsuffix, hmoves, ha', hr13⟩ := advances_edge hl ha hw hindex (by omega) hedge
  exact ⟨edge, k, ⟨.label (.edge edge) :: (routine edge ++ lines), [], c'⟩, hk, hw, by rw [hindex],
    (reaches_remark ..).trans hmoves.to_reflTransGen, from?_label hl.nodup hsuffix, hr13, ha'⟩

/-- Where a process is that is at the routine of an edge. -/
theorem Loaded.ahead_eq (hl : Loaded image config base) {edge : Edge}
    (hat : p.At image (.edge edge)) :
    config.wraps = false ∧
      ∃ after, p = ⟨.label (.edge edge) :: (routine edge ++ after), p.returns, p.cpu⟩ := by
  cases hw : config.wraps with
  | true => exact absurd (mem_of_from? hat) (hl.edgeless hw edge)
  | false =>
      obtain ⟨after, hsuffix⟩ := hl.edge_suffix hw edge
      have hahead := hat.symm.trans (from?_label hl.nodup hsuffix)
      obtain ⟨ahead, returns, c⟩ := p
      cases hahead
      exact ⟨rfl, after, rfl⟩

/-- **Whatever its state, a process at the routine of an edge ends with status one.** -/
theorem exits_of_at (platform : Platform) (hl : Loaded image config base) {edge : Edge}
    (hat : p.At image (.edge edge)) : ∃ c, Process.Exits platform image p 1 c := by
  obtain ⟨hw, after, hp⟩ := hl.ahead_eq hat
  obtain ⟨digits, hr⟩ := hl.reports hw
  obtain ⟨a, ha, -⟩ := hr.message edge
  -- the routine reports whatever bytes lie at the address of the message
  have hstores : p.cpu.Stores a ((List.range (messageBytes edge).length).map fun i =>
      p.cpu.memory (BitVec.ofNat 64 (a + i))) := by
    intro i hi
    rw [List.length_map, List.length_range] at hi
    simp [hi]
  obtain ⟨c, hexits, -⟩ := exits_edge hl hw hr ha (by simp) hstores
  rw [hp]
  exact ⟨c, hexits.exits⟩

/-- **The routine of an edge reports the fault.** -/
theorem Agrees.exits_one (platform : Platform) (hl : Loaded image config base)
    (ha : Agrees image config base m p.cpu) {edge : Edge} (hat : p.At image (.edge edge)) {k : Nat}
    (hk : k < 2 ^ 63) (hr13 : p.cpu.r13 = BitVec.ofNat 64 k) (pointer : Int) :
    ∃ c, Process.Exits platform image p 1 c ∧ Mirrors image m c ∧
      c.stderr = bytesOf ((Fault.edge edge k pointer).message ++ "\n") := by
  obtain ⟨hw, after, hp⟩ := hl.ahead_eq hat
  obtain ⟨digits, hr⟩ := hl.reports hw
  obtain ⟨a, ha', -, hholds, hbelow⟩ := hr.message edge
  have hdigits := hr.digits_le
  -- the message lies in front of the tape, where nothing was stored
  have hstores : p.cpu.Stores a (messageBytes edge) := by
    intro i hi
    have hlow := hholds.origin_le
    rw [ha.kept (a + i) (by omega) (by omega), hholds.getD_data hi]
  obtain ⟨c, hexits, hspares, hstderr⟩ := exits_edge hl hw hr ha' rfl hstores
  rw [← hp] at hexits
  refine ⟨c, hexits.exits, ?_, ?_⟩
  · refine ha.mirrors hl hspares.r12_eq hspares.input_eq hspares.stdout_eq ?_
    intro b hlow hlt
    exact hexits.memory_eq (not_inRoom (hr.room_lt hl.fits) hlt (.inr (by omega)))
  · rw [bytesOf_report, hstderr, ha.stderr_eq, hr13, toNat_address (by omega), List.nil_append]

/-! ## Reporting once -/

/-- The reporter and what follows it. -/
def reporter (config : TapeConfig) : Listing :=
  .label .fault :: (reporterStart ++ .anonymous :: (digitLoop ++ digitJump ::
    (reporterEnd ++ dataSegment config)))

/-- Whether a line is neither a call nor a return nor the label of an edge. -/
def isInward : Line → Bool
  | .code (.call _) | .code .ret | .label (.edge _) => false
  | _ => true

theorem isInward_of_mem_reporter (hw : config.wraps = false) {line : Line}
    (h : line ∈ reporter config) : isInward line = true := by
  have hall : (reporter config).all isInward = true := by
    rw [reporter, dataSegment, hw]
    rfl
  exact List.all_eq_true.1 hall line h

/-- Nothing leads out of the reporter. -/
theorem Loaded.stays (hl : Loaded image config base) (hw : config.wraps = false) {p' : Process}
    (hp : p.ahead <:+ reporter config) (hmove : Process.Moves platform image p p') :
    p'.ahead <:+ reporter config := by
  have hdata : dataSegment config = [.blank, .dataSegment] ++ (Edge.all.flatMap edgeMessage ++
      [.reserve .digits (.number 21)]) ++ [.reserve .tape (.name .tapeSize)] := by
    rw [dataSegment, hw]
    rfl
  obtain ⟨ahead, returns, c⟩ := p
  cases ahead with
  | nil => cases hmove
  | cons line ahead =>
      have hmem : line ∈ reporter config := hp.subset List.mem_cons_self
      rcases hmove.ahead_cases with hnext | ⟨j, target, rfl, htarget⟩ | ⟨n, rfl⟩ | rfl
      · rw [hnext]
        exact (List.suffix_cons ..).trans hp
      · -- the only jump is the one back to the label of the loop
        obtain ⟨front, hfront⟩ := hp
        have hsplit : .label .fault :: (reporterStart ++ .anonymous :: digitLoop) ++
            digitJump :: (reporterEnd ++ dataSegment config) =
              front ++ .code (.jump j target) :: ahead := by
          rw [hfront]
          simp [reporter]
        obtain ⟨-, hjump, rfl⟩ := (List.append_cons_inj_of_notMem
          (by simp [reporterStart, digitLoop, load, binary, unary])
          (by simp [reporterEnd, hdata, load, binary, edgeMessage])).1 hsplit
        cases hjump
        have hback := htarget.symm.trans (hl.target_backward hw)
        rw [Option.some.inj hback]
        exact ⟨.label .fault :: reporterStart, rfl⟩
      · cases isInward_of_mem_reporter hw hmem
      · cases isInward_of_mem_reporter hw hmem

/-- The lines of a routine lead to the reporter. -/
theorem Loaded.stays_routine (hl : Loaded image config base) (hw : config.wraps = false)
    {edge : Edge} {after : Listing} {k : Nat} (hk : k < 3) {p' : Process}
    (hp : p.ahead = (routine edge).drop k ++ after) (hmove : Process.Moves platform image p p') :
    (∃ l < 3, p'.ahead = (routine edge).drop l ++ after) ∨ p'.ahead <:+ reporter config := by
  obtain ⟨ahead, returns, c⟩ := p
  obtain rfl : ahead = _ := hp
  match k with
  | 0 =>
      rcases hmove.ahead_cases with hnext | ⟨j, target, hline, -⟩ | ⟨n, hline⟩ | hline
      · exact .inl ⟨1, by decide, hnext⟩
      · cases hline
      · cases hline
      · cases hline
  | 1 =>
      rcases hmove.ahead_cases with hnext | ⟨j, target, hline, -⟩ | ⟨n, hline⟩ | hline
      · exact .inl ⟨2, by decide, hnext⟩
      · cases hline
      · cases hline
      · cases hline
  | 2 =>
      have hjump : Process.Moves platform image ⟨jump .always .fault :: after, returns, c⟩
          ⟨reporter config, returns, c⟩ :=
        Process.moves_jump (from?_label hl.nodup (hl.reporter_suffix hw)) rfl
      obtain rfl := hjump.unique hmove
      exact .inr (List.suffix_refl _)

/-- A process that is at the routine of an edge does not come to one again. -/
theorem Loaded.eq_of_at (hl : Loaded image config base) {edge edge' : Edge} {p' : Process}
    (hat : p.At image (.edge edge)) (hat' : p'.At image (.edge edge'))
    (hreaches : Process.Reaches platform image p p') : p' = p ∧ edge' = edge := by
  obtain ⟨hw, after, hp⟩ := hl.ahead_eq hat
  obtain ⟨-, after', hp'⟩ := hl.ahead_eq hat'
  have hahead' : p'.ahead = .label (.edge edge') :: (routine edge' ++ after') :=
    congrArg Process.ahead hp'
  -- behind the label the process is in the routine or in the reporter
  have hlater : ∀ q, Process.Reaches platform image ⟨routine edge ++ after, p.returns, p.cpu⟩ q →
      (∃ k < 3, q.ahead = (routine edge).drop k ++ after) ∨ q.ahead <:+ reporter config := by
    intro q hq
    induction hq with
    | refl => exact .inl ⟨0, by decide, rfl⟩
    | tail _ hmove ih =>
        rcases ih with ⟨k, hk, hahead⟩ | hinside
        · exact hl.stays_routine hw hk hahead hmove
        · exact .inr (hl.stays hw hinside hmove)
  rcases Relation.ReflTransGen.cases_head hreaches with heq | ⟨q, hmove, hrest⟩
  · obtain rfl := heq
    rw [hp] at hahead'
    cases hahead'
    exact ⟨rfl, rfl⟩
  · exfalso
    rw [hp] at hmove
    obtain rfl := Process.moves_label.unique hmove
    rcases hlater p' hrest with ⟨k, hk, hahead⟩ | hinside
    · rw [hahead'] at hahead
      match k with
      | 0 => cases hahead
      | 1 => cases hahead
      | 2 => cases hahead
    · rw [hahead'] at hinside
      cases isInward_of_mem_reporter hw (hinside.subset List.mem_cons_self)

/-! ## Endless runs -/

/-- **A run that never ends keeps the process running.** -/
theorem Matches.runsForever (platform : Platform) (hl : Loaded image config base)
    (h : Matches image config base annotate e p) (hendless : e.Endless Watcher.idle) :
    Process.RunsForever platform image p := by
  -- the process is on its way to where it matches the run
  refine Process.runsForever_of_invariant
    (P := fun q => ∃ e p', Process.Reaches platform image q p' ∧
      Matches image config base annotate e p' ∧ e.Endless Watcher.idle)
    ?_ ⟨e, p, .refl, h, hendless⟩
  rintro q ⟨e, p', hreaches, hmatches, hendless⟩
  obtain ⟨e', hmove, hendless', hframes⟩ := hendless.moves
  obtain ⟨p'', -, hmatches', hadvances⟩ := hmatches.moves platform hl hmove
  obtain ⟨q', hfirst, hlater⟩ := Relation.TransGen.head'_iff.1
    (Relation.TransGen.trans_right hreaches (hadvances hframes))
  exact ⟨q', hfirst, e', p'', hlater, hmatches', hendless'⟩

end Endings

end TapeLang.Native
