import TapeLang.Proofs.Native.Process

/-!
# What a process stores, and what it divides

A line that stores does so at one address, `Process.storesAt?`: that of its first operand if this is
in memory, or the one that a system call reads to. A move changes the memory there and nowhere else
(`Moves.memory_eq`). A line that divides has a divisor, and can be executed only if the quotient
fits into a register (`quotient_lt_of_step?`).

`ReachesWithin` are moves that store in a part of the memory only, and leave the rest as it was. If
a process ends by such moves, all that it ever reaches is between two of them (`ExitsWithin.after`),
for it has no other way to go.
-/

set_option autoImplicit false

namespace TapeLang.Native

open Assembly

/-! ## Destinations -/

/-- The place in memory that an operand stands for, if it does. -/
def place? : Operand → Option Address
  | .byte a | .memory a => some a
  | .register _ | .value _ => none

/-- The operand that a line changes, if there is one. -/
def destination? : Line → Option Operand
  | .code (.binary .cmp _ _) | .code (.binary .test _ _) => none
  | .code (.binary _ dst _) => some dst
  | .code (.unary .div _) => none
  | .code (.unary _ arg) => some arg
  | _ => none

/-- The address at which the next line stores. A system call that reads counts also at the end of
the input. -/
def Process.storesAt? (image : Image) : Process → Option (BitVec 64)
  | ⟨[], _, _⟩ => none
  | ⟨.code .syscall :: _, _, c⟩ => if c.rax = 0 then some c.rsi else none
  | ⟨line :: _, _, c⟩ => ((destination? line).bind place?).bind (image.address? c)

namespace Image

variable {image : Image} {platform : Platform} {c c' : Cpu}

theorem memory_set {w : Nat} (r : Register) (x : BitVec w) : (c.set r x).memory = c.memory := by
  cases r <;> rfl

theorem memory_store_of_ne {a b : BitVec 64} (byte : UInt8) (h : b ≠ a) :
    (c.store a byte).memory b = c.memory b :=
  if_neg h

/-- Changing an operand leaves the memory alone that it does not stand for. -/
theorem memory_of_write? {w : Nat} {x : BitVec w} {dst : Operand} {b : BitVec 64}
    (h : image.write? x c dst = some c') (hb : (place? dst).bind (image.address? c) ≠ some b) :
    c'.memory b = c.memory b := by
  -- both kinds of places are written alike
  have hplace : ∀ a, image.address? c a ≠ some b →
      (if w = 8 then (image.address? c a).bind fun a =>
        image.store? c a (UInt8.ofBitVec (x.setWidth 8)) else none) = some c' →
      c'.memory b = c.memory b := by
    intro a hne hwrite
    by_cases hw : w = 8
    · rw [if_pos hw] at hwrite
      obtain ⟨there, haddress, hstore⟩ := Option.bind_eq_some_iff.1 hwrite
      rw [haddress] at hne
      rw [store?] at hstore
      split at hstore
      · cases hstore
        apply memory_store_of_ne
        rintro rfl
        exact hne rfl
      · cases hstore
    · rw [if_neg hw] at hwrite
      cases hwrite
  cases dst with
  | register r =>
      rw [write?] at h
      split at h
      · cases h
        rw [memory_set]
      · cases h
  | value v => cases h
  | byte a => exact hplace a hb h
  | memory a => exact hplace a hb h

theorem address?_flags (f : Flags) : image.address? { c with flags := f } = image.address? c := by
  funext a
  cases a <;> rfl

/-- The flags that are set along with an operand do not matter to where it is. -/
theorem memory_of_write?_flags {w : Nat} {x : BitVec w} {dst : Operand} {b : BitVec 64} {f : Flags}
    (h : image.write? x { c with flags := f } dst = some c')
    (hb : (place? dst).bind (image.address? c) ≠ some b) : c'.memory b = c.memory b :=
  memory_of_write? (c := { c with flags := f }) h (by rwa [address?_flags])

/-- An instruction with two operands changes the memory only where its first operand is. -/
theorem memory_of_combine? {w : Nat} {op : Binary} {dst src : Operand} {x y : BitVec w}
    {b : BitVec 64} (h : image.combine? op dst x y c = some c')
    (hb : ((destination? (.code (.binary op dst src))).bind place?).bind (image.address? c) ≠
      some b) : c'.memory b = c.memory b := by
  cases op with
  | cmp | test =>
      cases h
      rfl
  | mov => exact memory_of_write? h hb
  | add | sub | and | xor => exact memory_of_write?_flags h hb
  | cmove | cmovz =>
      rw [combine?] at h
      split at h
      · exact memory_of_write? h hb
      · cases h
        rfl

/-- An instruction with one operand changes the memory only where its operand is. -/
theorem memory_of_modify? {w : Nat} {op : Unary} {arg : Operand} {x : BitVec w} {b : BitVec 64}
    (h : image.modify? platform op arg x c = some c')
    (hb : ((destination? (.code (.unary op arg))).bind place?).bind (image.address? c) ≠ some b) :
    c'.memory b = c.memory b := by
  cases op with
  | inc | dec => exact memory_of_write?_flags h hb
  | div =>
      rw [modify?] at h
      split at h
      · simp only [divide?] at h
        split at h
        · cases h
        · cases h
          rfl
      · cases h

/-- **An instruction changes the memory only at its destination.** -/
theorem memory_of_operate? {o : Operation} {b : BitVec 64}
    (h : image.operate? platform o c = some c')
    (hb : ((destination? (.code o)).bind place?).bind (image.address? c) ≠ some b) :
    c'.memory b = c.memory b := by
  cases o with
  | binary op dst src =>
      obtain ⟨w, -, h⟩ := Option.bind_eq_some_iff.1 h
      obtain ⟨x, -, h⟩ := Option.bind_eq_some_iff.1 h
      obtain ⟨y, -, h⟩ := Option.bind_eq_some_iff.1 h
      exact memory_of_combine? h hb
  | unary op arg =>
      obtain ⟨w, -, h⟩ := Option.bind_eq_some_iff.1 h
      obtain ⟨x, -, h⟩ := Option.bind_eq_some_iff.1 h
      exact memory_of_modify? h hb
  | lea dst a =>
      obtain ⟨there, -, h⟩ := Option.bind_eq_some_iff.1 h
      split at h
      · cases h
        rw [memory_set]
      · cases h
  | jump j target | call n | ret | syscall => cases h

/-- A system call changes the memory only where it reads to. -/
theorem memory_of_systemCall? {b : BitVec 64} (h : image.systemCall? platform c = some (.resume c'))
    (hb : (if c.rax = 0 then some c.rsi else none) ≠ some b) : c'.memory b = c.memory b := by
  rw [systemCall?] at h
  split at h
  · rename_i hread
    rw [if_pos hread] at hb
    rw [readByte?] at h
    split at h
    · split at h
      · cases h
        rfl
      · cases h
        apply memory_store_of_ne
        rintro rfl
        exact hb rfl
    · cases h
  · split at h
    · obtain ⟨bytes, -, h⟩ := Option.bind_eq_some_iff.1 h
      split at h
      · cases h
        rfl
      · split at h
        · cases h
          rfl
        · cases h
    · split at h <;> cases h

end Image

namespace Process

variable {platform : Platform} {image : Image} {p p' : Process}

/-- What a line can lead to. It leaves the processor alone, it is an instruction that goes on with
the next line, or it is a system call. -/
theorem step?_cases {next : Next} (h : p.step? platform image = some next) :
    (∃ ahead returns, next = .running ⟨ahead, returns, p.cpu⟩) ∨
      (∃ o ahead c, p.ahead = .code o :: ahead ∧ image.operate? platform o p.cpu = some c ∧
        next = .running ⟨ahead, p.returns, c⟩) ∨
      ∃ ahead result, p.ahead = .code .syscall :: ahead ∧
        image.systemCall? platform p.cpu = some result ∧
        next = match result with
          | .exit status => .exited status p.cpu
          | .resume c => .running ⟨ahead, p.returns, c⟩ := by
  obtain ⟨ahead, returns, c⟩ := p
  cases ahead with
  | nil => cases h
  | cons line ahead =>
      have hoperate : ∀ o, ((image.operate? platform o c).bind fun c =>
          some (Next.running ⟨ahead, returns, c⟩)) = some next → ∃ o' ahead' c',
            Line.code o :: ahead = .code o' :: ahead' ∧ image.operate? platform o' c = some c' ∧
              next = .running ⟨ahead', returns, c'⟩ := by
        intro o ho
        obtain ⟨c', hc', hnext⟩ := Option.bind_eq_some_iff.1 ho
        exact ⟨o, ahead, c', rfl, hc', (Option.some.inj hnext).symm⟩
      cases line with
      | blank | format | entry n | define n d | label n | anonymous | comment note =>
          exact .inl ⟨ahead, returns, (Option.some.inj h).symm⟩
      | codeSegment | dataSegment | bytes n text | reserve n count => cases h
      | code o =>
          cases o with
          | binary op dst src => exact .inr (.inl (hoperate _ h))
          | unary op arg => exact .inr (.inl (hoperate _ h))
          | lea dst a => exact .inr (.inl (hoperate _ h))
          | jump j target | call n =>
              obtain ⟨there, -, hnext⟩ := Option.bind_eq_some_iff.1 h
              exact .inl ⟨_, _, (Option.some.inj hnext).symm⟩
          | ret =>
              cases returns with
              | nil => cases h
              | cons there returns => exact .inl ⟨there, returns, (Option.some.inj h).symm⟩
          | syscall =>
              obtain ⟨result, hresult, hnext⟩ := Option.bind_eq_some_iff.1 h
              refine .inr (.inr ⟨ahead, result, rfl, hresult, ?_⟩)
              cases result <;> exact (Option.some.inj hnext).symm

/-- **A move changes the memory only at the address where its line stores.** -/
theorem Moves.memory_eq {b : BitVec 64} (h : Moves platform image p p')
    (hb : p.storesAt? image ≠ some b) : p'.cpu.memory b = p.cpu.memory b := by
  obtain ⟨ahead, returns, c⟩ := p
  rcases step?_cases h with ⟨_, _, hnext⟩ | ⟨o, rest, c', rfl, hc', hnext⟩ |
    ⟨rest, result, rfl, hresult, hnext⟩
  · cases hnext
    rfl
  · cases hnext
    cases o with
    | syscall => cases hc'
    | _ => exact Image.memory_of_operate? hc' hb
  · cases result with
    | exit status => cases hnext
    | resume c' =>
        cases hnext
        exact Image.memory_of_systemCall? hresult hb

/-- The last line of a process leaves the processor as it is, and stores nothing. -/
theorem storesAt?_of_exited {status : Nat} {c : Cpu}
    (h : p.step? platform image = some (.exited status c)) :
    c = p.cpu ∧ p.storesAt? image = none := by
  obtain ⟨ahead, returns, c₀⟩ := p
  rcases step?_cases h with ⟨_, _, hnext⟩ | ⟨_, _, _, -, -, hnext⟩ |
    ⟨rest, result, rfl, hresult, hnext⟩
  · cases hnext
  · cases hnext
  · cases result with
    | resume c' => cases hnext
    | exit status' =>
        -- a call that reads does not end the process
        cases hnext
        refine ⟨rfl, if_neg ?_⟩
        intro hread
        rw [Image.systemCall?, if_pos hread, Image.readByte?] at hresult
        split at hresult
        · split at hresult <;> cases hresult
        · cases hresult

/-! ## Divisions -/

/-- The next line divides by this number. -/
def Divides (image : Image) (p : Process) (divisor : BitVec 64) : Prop :=
  ∃ arg rest, p.ahead = .code (.unary .div arg) :: rest ∧
    image.read? .mov 64 p.cpu arg = some divisor

/-- A division that can be executed has a quotient that fits into a register. -/
theorem quotient_lt_of_step? {divisor : BitVec 64} (hp : p.Divides image divisor)
    (h : p.step? platform image ≠ none) :
    divisor.toNat ≠ 0 ∧
      (p.cpu.rdx.toNat * 2 ^ 64 + p.cpu.rax.toNat) / divisor.toNat < 2 ^ 64 := by
  obtain ⟨ahead, returns, c⟩ := p
  obtain ⟨arg, rest, rfl, hread⟩ := hp
  obtain ⟨next, hnext⟩ := Option.ne_none_iff_exists'.1 h
  obtain ⟨c', hdivided, -⟩ := Option.bind_eq_some_iff.1 hnext
  obtain ⟨w, hw, hdivided⟩ := Option.bind_eq_some_iff.1 hdivided
  obtain ⟨x, hx, hdivided⟩ := Option.bind_eq_some_iff.1 hdivided
  -- only an operand that is as wide as a register can be read as a divisor
  have hwide : w = 64 := by
    cases arg with
    | register r =>
        rw [Image.read?] at hread
        split at hread
        · rename_i hwidth
          exact (Option.some.inj hw).symm.trans hwidth
        · cases hread
    | value v => cases hw
    | byte a => cases hread
    | memory a => cases hw
  subst hwide
  obtain rfl := Option.some.inj (hx.symm.trans hread)
  rw [Image.modify?, if_pos rfl, Image.divide?] at hdivided
  rw [BitVec.setWidth_eq] at hdivided
  split at hdivided
  · cases hdivided
  · rename_i hfits
    rw [not_or, Nat.not_le] at hfits
    exact hfits

/-! ## Storing in a part of the memory -/

variable (platform image) (room : BitVec 64 → Prop)

/-- A move that stores nothing outside a part of the memory. -/
def MovesWithin (p p' : Process) : Prop :=
  Moves platform image p p' ∧ ∀ a, p.storesAt? image = some a → room a

/-- Some moves that store nothing outside a part of the memory. -/
abbrev ReachesWithin : Process → Process → Prop :=
  Relation.ReflTransGen (MovesWithin platform image room)

/-- The process ends, and stores nothing outside a part of the memory until then. -/
def ExitsWithin (p : Process) (status : Nat) (c : Cpu) : Prop :=
  ∃ last, ReachesWithin platform image room p last ∧
    last.step? platform image = some (.exited status c)

variable {platform image room}

/-- A line that does not store. -/
theorem MovesWithin.of_silent (h : Moves platform image p p') (hp : p.storesAt? image = none) :
    MovesWithin platform image room p p' := by
  refine ⟨h, ?_⟩
  intro a ha
  cases hp.symm.trans ha

/-- A line that stores at an address of the part. -/
theorem MovesWithin.of_store {a : BitVec 64} (h : Moves platform image p p')
    (hp : p.storesAt? image = some a) (ha : room a) : MovesWithin platform image room p p' := by
  refine ⟨h, ?_⟩
  intro b hb
  obtain rfl := Option.some.inj (hp.symm.trans hb)
  exact ha

theorem ReachesWithin.reaches (h : ReachesWithin platform image room p p') :
    Reaches platform image p p' := by
  have hle : MovesWithin platform image room ≤ Moves platform image := fun _ _ hmove => hmove.1
  exact Relation.ReflTransGen.mono hle p p' h

/-- Such moves leave the rest of the memory as it was. -/
theorem ReachesWithin.memory_eq (h : ReachesWithin platform image room p p') {b : BitVec 64}
    (hb : ¬ room b) : p'.cpu.memory b = p.cpu.memory b := by
  induction h with
  | refl => rfl
  | tail _ hmove ih =>
      refine (hmove.1.memory_eq ?_).trans ih
      intro hstore
      exact hb (hmove.2 b hstore)

theorem ExitsWithin.memory_eq {status : Nat} {c : Cpu}
    (h : ExitsWithin platform image room p status c) {b : BitVec 64} (hb : ¬ room b) :
    c.memory b = p.cpu.memory b := by
  obtain ⟨last, hlast, hexit⟩ := h
  rw [(storesAt?_of_exited hexit).1]
  exact ReachesWithin.memory_eq hlast hb

theorem ExitsWithin.exits {status : Nat} {c : Cpu}
    (h : ExitsWithin platform image room p status c) : Exits platform image p status c := by
  obtain ⟨last, hlast, hexit⟩ := h
  exact ⟨last, ReachesWithin.reaches hlast, hexit⟩

theorem ExitsWithin.of_reaches {status : Nat} {c : Cpu}
    (hr : ReachesWithin platform image room p p')
    (h : ExitsWithin platform image room p' status c) :
    ExitsWithin platform image room p status c := by
  obtain ⟨last, hlast, hexit⟩ := h
  exact ⟨last, hr.trans hlast, hexit⟩

theorem exitsWithin_syscall {ahead : Listing} {returns : List Listing} {status : Nat} {c : Cpu}
    (h : image.systemCall? platform c = some (.exit status)) :
    ExitsWithin platform image room ⟨.code .syscall :: ahead, returns, c⟩ status c :=
  ⟨_, .refl, step?_syscall h⟩

/-- The first line of such a process stores nothing outside. -/
theorem ExitsWithin.room_of_storesAt? {status : Nat} {c : Cpu}
    (h : ExitsWithin platform image room p status c) {a : BitVec 64}
    (ha : p.storesAt? image = some a) : room a := by
  obtain ⟨last, hlast, hexit⟩ := h
  rcases Relation.ReflTransGen.cases_head hlast with rfl | ⟨q, hmove, -⟩
  · cases (storesAt?_of_exited hexit).2.symm.trans ha
  · exact hmove.2 a ha

/-- **Whatever a process reaches until it ends** is on its way, so that it keeps to the part of the
memory before and after. -/
theorem ExitsWithin.after {status : Nat} {c : Cpu}
    (h : ExitsWithin platform image room p status c) {q : Process}
    (hq : Reaches platform image p q) :
    ReachesWithin platform image room p q ∧ ExitsWithin platform image room q status c := by
  obtain ⟨last, hlast, hexit⟩ := h
  -- the moves to the end are the only ones there are
  induction hlast using Relation.ReflTransGen.head_induction_on with
  | refl =>
      obtain rfl := Reaches.eq_of_exited hexit hq
      exact ⟨.refl, _, .refl, hexit⟩
  | head hmove hrest ih =>
      rcases Relation.ReflTransGen.cases_head hq with rfl | ⟨p', hfirst, hlater⟩
      · exact ⟨.refl, _, .head hmove hrest, hexit⟩
      · obtain rfl := hmove.1.unique hfirst
        obtain ⟨hbefore, hafter⟩ := ih hlater
        exact ⟨.head hmove hbefore, hafter⟩

end Process

end TapeLang.Native
