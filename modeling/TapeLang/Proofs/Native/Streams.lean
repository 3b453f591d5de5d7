import TapeLang.Proofs.Native.Moving

/-!
# Input and output

The routines that write and read the cell under the pointer do what the machine does with its
streams (`advances_writeCell`, `advances_readCell`). They are called, and a system call may change
every register that is not kept by convention; agreement does not depend on those.
-/

set_option autoImplicit false

namespace TapeLang.Native

open Assembly

variable {platform : Platform} {image : Image} {config : TapeConfig} {base : Nat} {m : Machine}
  {c : Cpu} {rest : Listing} {returns : List Listing}

/-! ## System calls -/

namespace Image

theorem loadMany?_one (hm : image.mapped c.rsi = true) :
    image.loadMany? c c.rsi 1 = some [c.memory c.rsi] := by
  simp [loadMany?, load?, hm]

theorem systemCall?_stdout {bytes : List UInt8} (hrax : c.rax = 1) (hrdi : c.rdi = 1)
    (hbytes : image.loadMany? c c.rsi c.rdx.toNat = some bytes) :
    image.systemCall? platform c =
      some (.resume (returning platform c.rdx { c with stdout := c.stdout ++ bytes })) := by
  simp [systemCall?, writeBytes?, hrax, hrdi, hbytes]

theorem systemCall?_stderr {bytes : List UInt8} (hrax : c.rax = 1) (hrdi : c.rdi = 2)
    (hbytes : image.loadMany? c c.rsi c.rdx.toNat = some bytes) :
    image.systemCall? platform c =
      some (.resume (returning platform c.rdx { c with stderr := c.stderr ++ bytes })) := by
  simp [systemCall?, writeBytes?, hrax, hrdi, hbytes]

theorem systemCall?_read_nil (hrax : c.rax = 0) (hrdi : c.rdi = 0) (hrdx : c.rdx = 1)
    (hm : image.mapped c.rsi = true) (hinput : c.input = []) :
    image.systemCall? platform c = some (.resume (returning platform 0 c)) := by
  simp [systemCall?, readByte?, hrax, hrdi, hrdx, hm, hinput]

theorem systemCall?_read_cons {byte : UInt8} {input : List UInt8} (hrax : c.rax = 0)
    (hrdi : c.rdi = 0) (hrdx : c.rdx = 1) (hm : image.mapped c.rsi = true)
    (hinput : c.input = byte :: input) :
    image.systemCall? platform c =
      some (.resume (returning platform 1 { c.store c.rsi byte with input })) := by
  simp [systemCall?, readByte?, hrax, hrdi, hrdx, hm, hinput]

theorem systemCall?_exit {status : Nat} (hrax : c.rax = 60) (hstatus : status < 256)
    (hrdi : c.rdi = BitVec.ofNat 64 status) :
    image.systemCall? platform c = some (.exit status) := by
  have hmod : (BitVec.ofNat 64 status).toNat % 256 = status := by
    rw [toNat_address (by omega), Nat.mod_eq_of_lt hstatus]
  simp only [systemCall?, hrax, hrdi, hmod]
  rfl

end Image

/-! ## Constants -/

/-- The value of a constant. -/
theorem Loaded.value_constant (hl : Loaded image config base) {n : Name} (k : Nat)
    (h : (n, (k : Int)) ∈ constants config.length.cells) :
    value? image.symbols (.name n) = some (k : Int) :=
  hl.constant _ h

/-- Loading a small number. -/
theorem moves_load {r : Register} {v : Value} {k : Nat} (hr : width r = 32 ∨ width r = 64)
    (hv : value? image.symbols v = some (k : Int)) (hk : k < 2 ^ 31) :
    Process.Moves platform image ⟨load r v :: rest, returns, c⟩
      ⟨rest, returns, c.setFull r (BitVec.ofNat 64 k)⟩ := by
  refine Process.moves_operate (Image.operate?_load hr hv ?_)
  rcases hr with hr | hr
  · rw [hr]
    omega
  · rw [hr]
    omega

/-! ## The routines -/

/-- The routine that writes the cell, without its label. -/
def writeRoutine : Listing :=
  [load .eax (.name .sysWrite),
    load .edi (.name .stdout),
    .code (.lea .rsi cellAddress),
    load .edx (.number 1),
    .code .syscall,
    .code .ret]

/-- The routine that reads the cell, without its label. -/
def readRoutine : Listing :=
  [load .eax (.name .sysRead),
    load .edi (.name .stdin),
    .code (.lea .rsi cellAddress),
    load .edx (.number 1),
    .code .syscall,
    binary .test (.register .rax) (.register .rax),
    .code (.jump .greater .forward),
    binary .mov cell (.value (.number 0)),
    .anonymous,
    .code .ret]

theorem from?_writeCell (hl : Loaded image config base) : ∃ after,
    from? (.label .writeCell) image.listing =
      some (.label .writeCell :: (writeRoutine ++ after)) :=
  ⟨.blank :: .label .readCell :: (readRoutine ++ (faultRoutines config ++ dataSegment config)),
    from?_label hl.nodup (.trans ⟨epilogue.take 5, rfl⟩ hl.trailer_suffix)⟩

theorem from?_readCell (hl : Loaded image config base) : ∃ after,
    from? (.label .readCell) image.listing =
      some (.label .readCell :: (readRoutine ++ after)) :=
  ⟨faultRoutines config ++ dataSegment config,
    from?_label hl.nodup (.trans ⟨epilogue.take 13, rfl⟩ hl.trailer_suffix)⟩

/-- **Writing the cell.** -/
theorem advances_writeCell (hl : Loaded image config base) (h : Agrees image config base m c) :
    ∃ c', Process.Advances platform image ⟨.code (.call .writeCell) :: rest, returns, c⟩
      ⟨rest, returns, c'⟩ ∧ Agrees image config base m.emit c' := by
  obtain ⟨after, hfrom⟩ := from?_writeCell hl
  have hbytes := Image.loadMany?_one (c := { c with rsi := c.rbx + c.r12 }) (h.mapped_cell hl)
  refine ⟨_, .head (Process.moves_call hfrom) (.head Process.moves_label
    (.head (moves_load (.inl rfl) (hl.value_constant 1 (by simp [constants])) (by decide))
      (.head (moves_load (.inl rfl) (hl.value_constant 1 (by simp [constants])) (by decide))
        (.head (Process.moves_operate Image.operate?_leaCell)
          (.head (moves_load (.inl rfl) rfl (by decide))
            (.head (Process.moves_syscall (Image.systemCall?_stdout rfl rfl hbytes))
              (.single Process.moves_ret))))))), ?_⟩
  refine ⟨h.config_eq, h.base_eq, h.pointer_eq, h.pointer_lt, h.cells, h.kept, h.input_eq, ?_,
    h.stderr_eq⟩
  show c.stdout ++ [c.memory (c.rbx + c.r12)] = (m.output.push m.tape.cell).toList
  rw [h.memory_cell, h.stdout_eq, Array.toList_push]

/-- The processor at the system call of the reading routine. -/
def Cpu.asking (c : Cpu) : Cpu :=
  { c with rax := 0, rdi := 0, rsi := c.rbx + c.r12, rdx := 1 }

/-- The reading routine up to the end of its system call. -/
theorem advances_asking {c₁ : Cpu} (hl : Loaded image config base) (rest : Listing)
    (returns : List Listing) (hcall : image.systemCall? platform c.asking = some (.resume c₁)) :
    ∃ after, Process.Advances platform image ⟨.code (.call .readCell) :: rest, returns, c⟩
      ⟨readRoutine.drop 5 ++ after, rest :: returns, c₁⟩ := by
  obtain ⟨after, hfrom⟩ := from?_readCell hl
  exact ⟨after, .head (Process.moves_call hfrom) (.head Process.moves_label
    (.head (moves_load (.inl rfl) (hl.value_constant 0 (by simp [constants])) (by decide))
      (.head (moves_load (.inl rfl) (hl.value_constant 0 (by simp [constants])) (by decide))
        (.head (Process.moves_operate Image.operate?_leaCell)
          (.head (moves_load (.inl rfl) rfl (by decide))
            (.single (Process.moves_syscall hcall)))))))⟩

/-- **Reading the cell.** -/
theorem advances_readCell (hl : Loaded image config base) (h : Agrees image config base m c) :
    ∃ c', Process.Advances platform image ⟨.code (.call .readCell) :: rest, returns, c⟩
      ⟨rest, returns, c'⟩ ∧ Agrees image config base m.absorb c' := by
  have hmapped : image.mapped c.asking.rsi = true := h.mapped_cell hl
  obtain ⟨tape, input, output, sink, stats⟩ := m
  cases input with
  | nil =>
      have hcall : image.systemCall? platform c.asking =
          some (.resume (Image.returning platform 0 c.asking)) :=
        Image.systemCall?_read_nil rfl rfl rfl hmapped h.input_eq
      obtain ⟨after, hasking⟩ := advances_asking hl rest returns hcall
      -- the result is zero, so the jump over the store is not taken
      refine ⟨_, hasking.trans (.head (Process.moves_operate Image.operate?_testResult)
        (.head (Process.moves_noJump rfl Flags.holds_greater_zero)
          (.head (Process.moves_operate (Image.operate?_clearCell hmapped))
            (.head Process.moves_anonymous (.single Process.moves_ret))))), ?_⟩
      exact (h.store hl 0).of_eq rfl rfl rfl rfl rfl rfl
  | cons byte input =>
      have hcall : image.systemCall? platform c.asking = some (.resume
          (Image.returning platform 1 { c.asking.store c.asking.rsi byte with input })) :=
        Image.systemCall?_read_cons rfl rfl rfl hmapped h.input_eq
      obtain ⟨after, hasking⟩ := advances_asking hl rest returns hcall
      refine ⟨_, hasking.trans (.head (Process.moves_operate Image.operate?_testResult)
        (.head (Process.moves_jump rfl Flags.holds_greater_one)
          (.head Process.moves_anonymous (.single Process.moves_ret)))), ?_⟩
      have hstore := h.store hl byte
      exact ⟨hstore.config_eq, hstore.base_eq, hstore.pointer_eq, hstore.pointer_lt, hstore.cells,
        hstore.kept, rfl, hstore.stdout_eq, hstore.stderr_eq⟩

end TapeLang.Native
