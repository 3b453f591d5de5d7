import TapeLang.Proofs.Native.Commands
import TapeLang.Proofs.Native.Stores

/-!
# The fault reporter

Wherever it is entered from, the routine of an edge writes its message, the number in `r13` in
decimal and a newline to the error stream, and ends the process with status one. It stores into the
room for the digits and nowhere else (`exits_edge`).

The digits are found last to first, so the loop fills the room from its end. Twenty digits are
enough for 64 bits, and one byte is for the newline.
-/

set_option autoImplicit false

namespace TapeLang.Native

open Assembly

/-! ## Decimal digits -/

/-- A number in decimal, as bytes. -/
def decimal (n : Nat) : List UInt8 :=
  bytesOf (toString n)

theorem utf8EncodeChar_digitChar : ∀ d < 10,
    String.utf8EncodeChar (Nat.digitChar d) = [UInt8.ofNat (d + 48)] := by
  decide

theorem decimal_of_lt {n : Nat} (h : n < 10) : decimal n = [UInt8.ofNat (n + 48)] := by
  have hlist : (toString n).toList = [n.digitChar] := by
    rw [Nat.toString_eq_repr, Nat.toList_repr, Nat.toDigits_of_lt_base h]
  rw [decimal, bytesOf, hlist, List.flatMap_singleton, utf8EncodeChar_digitChar n h]

/-- The last digit comes off the end. -/
theorem decimal_of_le {n : Nat} (h : 10 ≤ n) :
    decimal n = decimal (n / 10) ++ [UInt8.ofNat (n % 10 + 48)] := by
  have hlist : (toString n).toList = (toString (n / 10)).toList ++ [(n % 10).digitChar] := by
    rw [Nat.toString_eq_repr, Nat.toList_repr, Nat.toString_eq_repr, Nat.toList_repr,
      Nat.toDigits_of_base_le (by decide) h]
  rw [decimal, bytesOf, hlist, List.flatMap_append, List.flatMap_singleton,
    utf8EncodeChar_digitChar _ (Nat.mod_lt n (by decide))]
  rfl

/-- The bytes of a report: the message, the index and a newline. -/
theorem bytesOf_report (e : Edge) (k : Nat) (pointer : Int) :
    bytesOf ((Fault.edge e k pointer).message ++ "\n") =
      messageBytes e ++ (decimal k ++ [10]) := by
  have hmessage : (Fault.edge e k pointer).message =
      e.description ++ " at instruction " ++ toString k := rfl
  rw [hmessage, bytesOf_append, bytesOf_append _ (toString k), List.append_assoc]
  rfl

/-! ## Bytes in memory -/

/-- Bytes that lie in memory at an address. -/
def Cpu.Stores (c : Cpu) (a : Nat) (bytes : List UInt8) : Prop :=
  ∀ i < bytes.length, c.memory (BitVec.ofNat 64 (a + i)) = bytes.getD i 0

theorem Cpu.Stores.tail {c : Cpu} {a : Nat} {byte : UInt8} {bytes : List UInt8}
    (h : c.Stores a (byte :: bytes)) : c.Stores (a + 1) bytes := by
  intro i hi
  have hnext := h (i + 1) (Nat.succ_lt_succ hi)
  rw [List.getD_cons_succ] at hnext
  rw [← hnext]
  congr 2
  omega

/-- What lies in the mapped memory can be loaded. -/
theorem loadMany?_of_stores {image : Image} {c : Cpu} {bytes : List UInt8} :
    ∀ {a : Nat}, c.Stores a bytes →
      (∀ i < bytes.length, image.mapped (BitVec.ofNat 64 (a + i)) = true) →
      image.loadMany? c (BitVec.ofNat 64 a) bytes.length = some bytes := by
  induction bytes with
  | nil =>
      intro a _ _
      rfl
  | cons byte bytes ih =>
      intro a hstores hmapped
      have hfirst : image.load? c (BitVec.ofNat 64 a) = some byte := by
        have hbyte := hstores 0 (Nat.succ_pos _)
        have hmap := hmapped 0 (Nat.succ_pos _)
        rw [Nat.add_zero] at hbyte hmap
        rw [Image.load?, if_pos hmap, hbyte]
        rfl
      have hrest := ih hstores.tail fun i hi => by
        have hmap := hmapped (i + 1) (Nat.succ_lt_succ hi)
        rwa [Nat.add_assoc, Nat.add_comm 1 i]
      simp only [List.length_cons, Image.loadMany?, hfirst, succ_register, hrest,
        Option.bind_eq_bind, Option.bind_some]
      rfl

/-! ## What the reporter leaves alone -/

/-- Everything outside the memory that the code of a program relies on is as it was, apart from the
error stream. -/
structure Spares (c c' : Cpu) : Prop where
  rbx_eq : c'.rbx = c.rbx
  r12_eq : c'.r12 = c.r12
  r13_eq : c'.r13 = c.r13
  input_eq : c'.input = c.input
  stdout_eq : c'.stdout = c.stdout

theorem Spares.trans {c c' c'' : Cpu} (h : Spares c c') (h' : Spares c' c'') : Spares c c'' where
  rbx_eq := h'.rbx_eq.trans h.rbx_eq
  r12_eq := h'.r12_eq.trans h.r12_eq
  r13_eq := h'.r13_eq.trans h.r13_eq
  input_eq := h'.input_eq.trans h.input_eq
  stdout_eq := h'.stdout_eq.trans h.stdout_eq

/-- An address in the room for digits. -/
def InRoom (digits : Nat) (a : BitVec 64) : Prop :=
  ∃ k < 21, a = BitVec.ofNat 64 (digits + k)

theorem not_inRoom {digits a : Nat} (hroom : digits + 21 ≤ 2 ^ 64) (ha : a < 2 ^ 64)
    (hout : a < digits ∨ digits + 21 ≤ a) : ¬ InRoom digits (BitVec.ofNat 64 a) := by
  rintro ⟨k, hk, heq⟩
  have := address_inj ha (by omega) heq
  omega

section Loop

variable {platform : Platform} {image : Image} {digits base : Nat} {c : Cpu} {after : Listing}
  {returns : List Listing}

theorem Reports.mapped_room (hr : Reports image digits base)
    (hfits : image.origin + image.data.length ≤ 2 ^ 64) {k : Nat} (hk : k < 21) :
    image.mapped (BitVec.ofNat 64 (digits + k)) = true :=
  hr.room.mapped hfits (by rw [List.length_replicate]; exact hk)

theorem Reports.room_lt (hr : Reports image digits base)
    (hfits : image.origin + image.data.length ≤ 2 ^ 64) : digits + 21 ≤ 2 ^ 64 := by
  have hend := hr.room.end_le
  rw [List.length_replicate] at hend
  omega

/-! ## The loop -/

/-- One pass of the loop that finds the digits, without the label before it and the jump back. -/
def digitLoop : Listing :=
  [binary .xor (.register .edx) (.register .edx),
    unary .div (.register .rcx),
    binary .add (.register .dl) (.value (.char '0')),
    unary .dec (.register .rsi),
    binary .mov (.memory (.register .rsi)) (.register .dl),
    binary .test (.register .rax) (.register .rax)]

/-- The processor after a pass that put the last digit of `n` at the address `a`. -/
def Cpu.withDigit (c : Cpu) (a n : Nat) : Cpu :=
  { c.store (BitVec.ofNat 64 a) (UInt8.ofNat (n % 10 + 48)) with
    rax := BitVec.ofNat 64 (n / 10)
    rdx := BitVec.ofNat 64 (n % 10 + 48)
    rsi := BitVec.ofNat 64 a
    flags := .ofBits (BitVec.ofNat 64 (n / 10)) }

theorem reaches_withDigit (hr : Reports image digits base)
    (hfits : image.origin + image.data.length ≤ 2 ^ 64) {n k : Nat} (hn : n < 2 ^ 64) (hk : k < 21)
    (hrax : c.rax = BitVec.ofNat 64 n) (hrcx : c.rcx = 10)
    (hrsi : c.rsi = BitVec.ofNat 64 (digits + (k + 1))) :
    Process.ReachesWithin platform image (InRoom digits)
      ⟨.anonymous :: (digitLoop ++ after), returns, c⟩
      ⟨after, returns, c.withDigit (digits + k) n⟩ := by
  have hrax' : c.rax.toNat = n := by rw [hrax, toNat_address hn]
  have hrsi' : c.rsi - 1 = BitVec.ofNat 64 (digits + k) := by
    rw [hrsi, pred_register (by omega)]
    rfl
  have hmapped : image.mapped (c.rsi - 1) = true := by
    rw [hrsi']
    exact hr.mapped_room hfits hk
  have hdigit : UInt8.ofBitVec ((BitVec.ofNat 64 (n % 10 + 48)).setWidth 8) =
      UInt8.ofNat (n % 10 + 48) := by
    rw [BitVec.setWidth_ofNat_of_le (by decide)]
    rfl
  rw [Cpu.withDigit, ← hrsi', ← hdigit, ← hrax']
  exact .head (.of_silent Process.moves_anonymous rfl)
    (.head (.of_silent (Process.moves_operate (Image.operate?_clear (.inl rfl))) rfl)
      (.head (.of_silent (Process.moves_operate (Image.operate?_divTen hrcx rfl)) rfl)
        (.head (.of_silent (Process.moves_operate
            (Image.operate?_addZeroChar (Nat.mod_lt _ (by decide)) rfl)) rfl)
          (.head (.of_silent (Process.moves_operate Image.operate?_decRsi) rfl)
            (.head (.of_store (Process.moves_operate (Image.operate?_storeDigit hmapped)) rfl
                ⟨k, hk, hrsi'⟩)
              (.single (.of_silent (Process.moves_operate Image.operate?_testResult) rfl)))))))

theorem stores_withDigit {n k : Nat} {tail : List UInt8}
    (hroom : digits + (k + 1) + tail.length ≤ 2 ^ 64) (h : c.Stores (digits + (k + 1)) tail) :
    (c.withDigit (digits + k) n).Stores (digits + k) (UInt8.ofNat (n % 10 + 48) :: tail) := by
  intro i hi
  rw [List.length_cons] at hi
  show (if BitVec.ofNat 64 (digits + k + i) = BitVec.ofNat 64 (digits + k) then _ else _) = _
  cases i with
  | zero => exact if_pos rfl
  | succ i =>
      rw [if_neg, List.getD_cons_succ, ← h i (by omega)]
      · congr 2
        omega
      · intro heq
        have := address_inj (by omega) (by omega) heq
        omega

/-- The jump back of the loop. -/
def digitJump : Line :=
  .code (.jump .notZero .backward)

/-- **The loop writes a number in decimal**, ending in front of the address it starts from. -/
theorem reaches_decimal (hr : Reports image digits base)
    (hfits : image.origin + image.data.length ≤ 2 ^ 64)
    (hback : target? image.listing after .backward =
      some (.anonymous :: (digitLoop ++ digitJump :: after))) {n k : Nat} (hpos : 0 < k)
    (hk : k ≤ 20) (hn : n < 10 ^ k) (hn' : n < 2 ^ 64) (hrax : c.rax = BitVec.ofNat 64 n)
    (hrcx : c.rcx = 10) (hrsi : c.rsi = BitVec.ofNat 64 (digits + k)) {tail : List UInt8}
    (htail : k + tail.length ≤ 21) (hstores : c.Stores (digits + k) tail) :
    ∃ j c', Process.ReachesWithin platform image (InRoom digits)
        ⟨.anonymous :: (digitLoop ++ digitJump :: after), returns, c⟩ ⟨after, returns, c'⟩ ∧
      Spares c c' ∧ c'.stderr = c.stderr ∧ j + (decimal n).length = k ∧
      c'.rsi = BitVec.ofNat 64 (digits + j) ∧ c'.Stores (digits + j) (decimal n ++ tail) := by
  have hroom := hr.room_lt hfits
  -- `k` places are left in front of the tail, and each pass uses up one of them
  induction k generalizing n c tail with
  | zero => omega
  | succ k ih =>
      have hpass : Process.ReachesWithin platform image (InRoom digits)
          ⟨.anonymous :: (digitLoop ++ digitJump :: after), returns, c⟩
          ⟨digitJump :: after, returns, c.withDigit (digits + k) n⟩ :=
        reaches_withDigit hr hfits hn' (by omega) hrax hrcx hrsi
      have hspares : Spares c (c.withDigit (digits + k) n) := ⟨rfl, rfl, rfl, rfl, rfl⟩
      have hdigit := stores_withDigit (n := n) (by omega) hstores
      have hholds : (c.withDigit (digits + k) n).flags.holds .notZero =
          !decide (BitVec.ofNat 64 (n / 10) = 0) := Flags.holds_notZero_ofBits ..
      by_cases hlast : n < 10
      · have hzero : n / 10 = 0 := Nat.div_eq_of_lt hlast
        rw [hzero] at hholds
        rw [Nat.mod_eq_of_lt hlast] at hdigit
        refine ⟨k, _, hpass.tail (.of_silent (Process.moves_noJump hback hholds) rfl), hspares, rfl,
          ?_, rfl, ?_⟩
        · rw [decimal_of_lt hlast]
          rfl
        · rw [decimal_of_lt hlast]
          exact hdigit
      · have hne : BitVec.ofNat 64 (n / 10) ≠ 0 := by
          intro heq
          have := address_inj (b := 0) (by omega) (by decide) heq
          omega
        -- a number that is not used up yet has room left
        have hsmall : n / 10 < 10 ^ k := by
          rw [Nat.pow_succ] at hn
          omega
        have hkpos : 0 < k := by
          rcases Nat.eq_zero_or_pos k with rfl | hkpos
          · omega
          · exact hkpos
        rw [decide_eq_false hne] at hholds
        obtain ⟨j, c', hrest, hspares', hstderr, hj, hrsi', hstores'⟩ :=
          ih (c := c.withDigit (digits + k) n) hkpos (by omega) hsmall (by omega) rfl hrcx rfl
            (by rw [List.length_cons]; omega) hdigit
        refine ⟨j, c', .trans (hpass.tail (.of_silent (Process.moves_jump hback hholds) rfl)) hrest,
          hspares.trans hspares', hstderr, ?_, hrsi', ?_⟩
        · rw [decimal_of_le (by omega), List.length_append, List.length_singleton]
          omega
        · rw [decimal_of_le (by omega), List.append_assoc]
          exact hstores'

end Loop

/-! ## The routine -/

/-- The reporter from its label to its loop. -/
def reporterStart : Listing :=
  [load .eax (.name .sysWrite),
    load .edi (.name .stderr),
    .code .syscall,
    .code (.lea .rsi (.value (.above .digits 20))),
    binary .mov (.byte (.register .rsi)) (.value (.number 10)),
    binary .mov (.register .rax) checkedIndex,
    load .ecx (.number 10)]

/-- The reporter after its loop. -/
def reporterEnd : Listing :=
  [load .rdx (.above .digits 21),
    binary .sub (.register .rdx) (.register .rsi),
    load .eax (.name .sysWrite),
    load .edi (.name .stderr),
    .code .syscall,
    load .eax (.name .sysExit),
    load .edi (.name .exitFault),
    .code .syscall]

section Routine

variable {platform : Platform} {image : Image} {config : TapeConfig} {digits base : Nat} {c : Cpu}
  {after : Listing} {returns : List Listing}

/-- The reporter stands in front of the data. -/
theorem Loaded.reporter_suffix (hl : Loaded image config base) (hw : config.wraps = false) :
    .label .fault :: (reporterStart ++ .anonymous :: (digitLoop ++ digitJump ::
      (reporterEnd ++ dataSegment config))) <:+ image.listing := by
  have h := hl.trailer_suffix
  rw [trailer, faultRoutines, hw] at h
  exact .trans ⟨epilogue ++ (Edge.all.flatMap edgeRoutine ++ [.blank]), rfl⟩ h

/-- The jump back of the loop goes to the label before it. -/
theorem Loaded.target_backward (hl : Loaded image config base) (hw : config.wraps = false) :
    target? image.listing (reporterEnd ++ dataSegment config) .backward =
      some (.anonymous :: (digitLoop ++ digitJump :: (reporterEnd ++ dataSegment config))) := by
  obtain ⟨front, hfront⟩ := hl.reporter_suffix hw
  have hlisting : image.listing = front ++ .label .fault :: reporterStart ++
      .anonymous :: (digitLoop ++ [digitJump] ++ (reporterEnd ++ dataSegment config)) := by
    rw [← hfront]
    simp
  rw [target?, hlisting, above?_append (by decide)]
  simp

theorem Loaded.base_lt (hl : Loaded image config base) : base < 2 ^ 64 := by
  have hend := hl.blank.end_le
  have hfits := hl.fits
  have hpos := config.one_le
  rw [List.length_replicate] at hend
  omega

theorem Reports.value_above (hr : Reports image digits base) (k : Nat) :
    value? image.symbols (.above .digits k) = some ((digits + k : Nat) : Int) := by
  rw [value?, hr.digits_value]
  rfl

/-- The processor at a system call that writes `length` bytes from the address `a` on to the error
stream. -/
def Cpu.reporting (c : Cpu) (a length : Nat) : Cpu :=
  { c with
    rsi := BitVec.ofNat 64 a, rdx := BitVec.ofNat 64 length
    rax := BitVec.ofNat 64 1, rdi := BitVec.ofNat 64 2 }

theorem systemCall?_reporting {a : Nat} {bytes : List UInt8} (hlength : bytes.length < 2 ^ 64)
    (hstores : c.Stores a bytes)
    (hmapped : ∀ i < bytes.length, image.mapped (BitVec.ofNat 64 (a + i)) = true) :
    image.systemCall? platform (c.reporting a bytes.length) =
      some (.resume (Image.returning platform (BitVec.ofNat 64 bytes.length)
        { c.reporting a bytes.length with stderr := c.stderr ++ bytes })) := by
  refine Image.systemCall?_stderr rfl rfl ?_
  show image.loadMany? _ (BitVec.ofNat 64 a) (BitVec.ofNat 64 bytes.length).toNat = some bytes
  rw [toNat_address hlength]
  exact loadMany?_of_stores (c := c.reporting a bytes.length) hstores hmapped

/-- The routine of an edge up to the system call that writes the message. -/
theorem reaches_announced (platform : Platform) (after : Listing) (returns : List Listing)
    (hl : Loaded image config base) (hw : config.wraps = false)
    (hr : Reports image digits base) {e : Edge} {a : Nat}
    (ha : image.symbols.lookup (.edgeMessage e) = some (a : Int)) {message : List UInt8}
    (hlength : message.length = (messageBytes e).length) (hstores : c.Stores a message) :
    ∃ c', Process.ReachesWithin platform image (InRoom digits)
        ⟨.label (.edge e) :: (routine e ++ after), returns, c⟩
        ⟨reporterStart.drop 3 ++ .anonymous :: (digitLoop ++ digitJump ::
          (reporterEnd ++ dataSegment config)), returns, c'⟩ ∧
      Spares c c' ∧ c'.stderr = c.stderr ++ message := by
  obtain ⟨a', ha', halength, hholds, -⟩ := hr.message e
  obtain rfl : a' = a := Int.ofNat.inj (Option.some.inj (ha'.symm.trans ha))
  have hlt := length_messageBytes_lt e
  have hend := hholds.end_le
  have hfits := hl.fits
  have hpos : 0 < (messageBytes e).length := by
    cases e <;> decide
  have hcall : image.systemCall? platform (c.reporting a' message.length) = _ :=
    systemCall?_reporting (by omega) hstores
      (fun i hi => hholds.mapped hfits (by omega))
  rw [hlength] at hcall
  refine ⟨_, .head (.of_silent Process.moves_label rfl) (.head (.of_silent (Process.moves_operate
    (Image.operate?_load (.inr rfl) ha (by show a' < 2 ^ 64; omega))) rfl)
      (.head (.of_silent (moves_load (.inl rfl) halength (by omega)) rfl)
        (.head (.of_silent
            (Process.moves_jump (from?_label hl.nodup (hl.reporter_suffix hw)) rfl) rfl)
          (.head (.of_silent Process.moves_label rfl)
            (.head (.of_silent (moves_load (.inl rfl) (hl.value_constant 1 (by simp [constants]))
                (by decide)) rfl)
              (.head (.of_silent (moves_load (.inl rfl) (hl.value_constant 2 (by simp [constants]))
                  (by decide)) rfl)
                (.single (.of_silent (Process.moves_syscall hcall) rfl)))))))),
    ⟨rfl, rfl, rfl, rfl, rfl⟩, rfl⟩

/-- The reporter from its first system call to its loop. -/
theorem reaches_prepared (returns : List Listing) (c : Cpu) (hl : Loaded image config base)
    (hr : Reports image digits base) :
    ∃ c', Process.ReachesWithin platform image (InRoom digits)
        ⟨reporterStart.drop 3 ++ after, returns, c⟩ ⟨after, returns, c'⟩ ∧
      Spares c c' ∧ c'.stderr = c.stderr ∧ c'.rax = c.r13 ∧ c'.rcx = 10 ∧
      c'.rsi = BitVec.ofNat 64 (digits + 20) ∧ c'.Stores (digits + 20) [10] := by
  refine ⟨_,
    .head (.of_silent (Process.moves_operate (Image.operate?_leaValue (hr.value_above 20))) rfl)
      (.head (.of_store (Process.moves_operate
          (Image.operate?_storeNumber (k := 10) (hr.mapped_room hl.fits (by decide)) (by decide)))
            rfl ⟨20, by decide, rfl⟩)
        (.head (.of_silent (Process.moves_operate Image.operate?_copyIndex) rfl)
          (.single (.of_silent (moves_load (.inl rfl) rfl (by decide)) rfl)))),
    ⟨rfl, rfl, rfl, rfl, rfl⟩, rfl, rfl, rfl, rfl, ?_⟩
  intro i hi
  obtain rfl : i = 0 := by simpa using hi
  show (if BitVec.ofNat 64 (digits + 20 + 0) = BitVec.ofNat 64 (digits + 20) then _ else _) = _
  rw [Nat.add_zero, if_pos rfl]
  rfl

/-- The reporter after its loop writes from the first digit on and ends the process. -/
theorem exits_reporterEnd (hl : Loaded image config base) (hr : Reports image digits base) {j : Nat}
    {bytes : List UInt8} (hj : j + bytes.length = 21)
    (hrsi : c.rsi = BitVec.ofNat 64 (digits + j)) (hstores : c.Stores (digits + j) bytes) :
    ∃ c', Process.ExitsWithin platform image (InRoom digits)
        ⟨reporterEnd ++ after, returns, c⟩ 1 c' ∧
      Spares c c' ∧ c'.stderr = c.stderr ++ bytes := by
  have hend : digits + 21 < 2 ^ 64 := Nat.lt_of_le_of_lt hr.digits_le hl.base_lt
  -- the length is computed from where the digits start to the end of the room
  have hlength : BitVec.ofNat 64 (digits + 21) - c.rsi = BitVec.ofNat 64 bytes.length := by
    rw [hrsi, BitVec.sub_eq_iff_eq_add, address_add]
    congr 1
    omega
  have hcall : image.systemCall? platform (Cpu.reporting
      { c with flags := .ofSub (BitVec.ofNat 64 (digits + 21)) c.rsi } (digits + j) bytes.length) =
        _ :=
    systemCall?_reporting (by omega) hstores fun i hi => by
      rw [Nat.add_assoc]
      exact hr.mapped_room hl.fits (by omega)
  rw [Cpu.reporting, ← hlength, ← hrsi] at hcall
  refine ⟨_, .of_reaches (.head (.of_silent (Process.moves_operate
      (Image.operate?_load (.inr rfl) (hr.value_above 21) hend)) rfl)
    (.head (.of_silent (Process.moves_operate Image.operate?_subRsi) rfl)
      (.head (.of_silent (moves_load (.inl rfl) (hl.value_constant 1 (by simp [constants]))
          (by decide)) rfl)
        (.head (.of_silent (moves_load (.inl rfl) (hl.value_constant 2 (by simp [constants]))
            (by decide)) rfl)
          (.head (.of_silent (Process.moves_syscall hcall) rfl)
            (.head (.of_silent (moves_load (.inl rfl) (hl.value_constant 60 (by simp [constants]))
                (by decide)) rfl)
              (.single (.of_silent (moves_load (.inl rfl)
                (hl.value_constant 1 (by simp [constants])) (by decide)) rfl))))))))
      (Process.exitsWithin_syscall (Image.systemCall?_exit rfl (by decide) rfl)),
    ⟨rfl, rfl, rfl, rfl, rfl⟩, rfl⟩

/-- **The routine of an edge reports and ends the process.** -/
theorem exits_edge (hl : Loaded image config base) (hw : config.wraps = false)
    (hr : Reports image digits base) {e : Edge} {a : Nat}
    (ha : image.symbols.lookup (.edgeMessage e) = some (a : Int)) {message : List UInt8}
    (hlength : message.length = (messageBytes e).length) (hstores : c.Stores a message) :
    ∃ c', Process.ExitsWithin platform image (InRoom digits)
        ⟨.label (.edge e) :: (routine e ++ after), returns, c⟩ 1 c' ∧
      Spares c c' ∧
      c'.stderr = c.stderr ++ (message ++ (decimal c.r13.toNat ++ [10])) := by
  obtain ⟨c₁, hmoves₁, hspares₁, hstderr₁⟩ :=
    reaches_announced platform after returns hl hw hr ha hlength hstores
  obtain ⟨c₂, hmoves₂, hspares₂, hstderr₂, hrax, hrcx, hrsi, hnewline⟩ :=
    reaches_prepared returns c₁ hl hr
  -- the system call keeps `r13`, so the index is still there
  have hindex : c₂.rax = BitVec.ofNat 64 c.r13.toNat := by
    rw [hrax, hspares₁.r13_eq, BitVec.ofNat_toNat, BitVec.setWidth_eq]
  have hlt := c.r13.isLt
  obtain ⟨j, c₃, hmoves₃, hspares₃, hstderr₃, hj, hrsi₃, hdigits⟩ :=
    reaches_decimal (k := 20) hr hl.fits (hl.target_backward hw) (by decide) (by decide)
      (Nat.lt_of_lt_of_le hlt (by decide)) hlt hindex hrcx hrsi (by decide) hnewline
  obtain ⟨c₄, hexits, hspares₄, hstderr₄⟩ :=
    exits_reporterEnd hl hr (by rw [List.length_append, ← Nat.add_assoc, hj]; rfl) hrsi₃ hdigits
  refine ⟨c₄, .of_reaches (hmoves₁.trans (hmoves₂.trans hmoves₃)) hexits,
    hspares₁.trans (hspares₂.trans (hspares₃.trans hspares₄)), ?_⟩
  rw [hstderr₄, hstderr₃, hstderr₂, hstderr₁, List.append_assoc]

end Routine

end TapeLang.Native
