import Mathlib.Logic.Relation
import TapeLang.Proofs.Native.Processor

/-!
# Assembling and executing a listing

`assemble?` gives the names of a listing their values and lays out its data. It refuses a listing
that defines a name twice, that uses a name before it has a value, or whose data does not fit.

A process is an image in execution: the lines that are still ahead, where the called routines
return to, and the processor. `Process.step?` executes one line. It has no result if the line
cannot be executed; jumps go to the definition of their label.

A process makes one move at most (`Moves.unique`), so it ends in one way only (`Exits.unique`), and
a process that runs forever does not end at all (`RunsForever.not_exits`).
-/

set_option autoImplicit false

namespace TapeLang.Native

open Assembly

/-! ## Assembling -/

/-- The bytes of a text. -/
def bytesOf (text : String) : List UInt8 :=
  text.toList.flatMap String.utf8EncodeChar

@[simp] theorem bytesOf_append (s t : String) : bytesOf (s ++ t) = bytesOf s ++ bytesOf t := by
  simp [bytesOf]

/-- The name that a line defines. -/
def defined? : Line → Option Name
  | .define n _ | .label n | .bytes n _ | .reserve n _ => some n
  | .blank | .format | .codeSegment | .dataSegment | .entry _ | .anonymous | .comment _
  | .code _ => none

/-- The names that a listing defines, in order. -/
def definitions (listing : Listing) : List Name :=
  listing.filterMap defined?

/-- What an assembler knows: the values of the names so far, and the data so far. -/
structure Layout where
  symbols : List (Name × Int) := []
  data : List UInt8 := []
  deriving DecidableEq, Repr

namespace Layout

/-- Give a name a value. -/
def define (l : Layout) (n : Name) (value : Int) : Layout :=
  { l with symbols := (n, value) :: l.symbols }

/-- Put bytes under a name at the end of the data. -/
def allot (origin : Nat) (l : Layout) (n : Name) (bytes : List UInt8) : Layout :=
  { l.define n (origin + l.data.length : Nat) with data := l.data ++ bytes }

/-- Take in a line. Reserved memory is zero; the truth value is not a number. -/
def place? (origin : Nat) (l : Layout) : Line → Option Layout
  | .define n (.number k) => some (l.define n k)
  | .define n (.length (.number k)) => some (l.define n k)
  | .define _ (.length .truth) => none
  | .define n (.since start) => do
      let a ← l.symbols.lookup start
      return l.define n ((origin + l.data.length : Nat) - a)
  | .bytes n text => some (l.allot origin n (bytesOf text))
  | .reserve n count => do
      let k ← value? l.symbols count
      if 0 ≤ k then some (l.allot origin n (List.replicate k.toNat 0)) else none
  | .blank | .format | .codeSegment | .dataSegment | .entry _ | .label _ | .anonymous | .comment _
  | .code _ => some l

end Layout

/-- Assemble a listing, with its data at an address. -/
def assemble? (origin : Nat) (listing : Listing) : Option Image := do
  let layout ← listing.foldlM (Layout.place? origin) {}
  if (definitions listing).Nodup ∧ origin + layout.data.length ≤ 2 ^ 64 then
    some { listing, symbols := layout.symbols, origin, data := layout.data }
  else none

/-! ## Finding lines -/

/-- The lines from the first occurrence of a line on. -/
def from? (line : Line) : Listing → Option Listing
  | [] => none
  | first :: rest => if first = line then some (first :: rest) else from? line rest

/-- The lines from the last anonymous label above the last `below` lines on. -/
def above? (below : Nat) : Listing → Option Listing
  | [] => none
  | first :: rest =>
      if rest.length < below then none
      else (above? below rest).or (if first = .anonymous then some (first :: rest) else none)

/-- The lines from the target of a jump on, if `ahead` are the lines after the jump. -/
def target? (listing ahead : Listing) : Target → Option Listing
  | .name n => from? (.label n) listing
  | .forward => from? .anonymous ahead
  | .backward => above? ahead.length listing

theorem from?_append {line : Line} :
    ∀ {front : Listing}, line ∉ front → ∀ rest : Listing,
      from? line (front ++ line :: rest) = some (line :: rest) := by
  intro front
  induction front with
  | nil =>
      intro _ rest
      exact if_pos rfl
  | cons first front ih =>
      intro hnot rest
      have hfirst : first ≠ line := fun h => hnot (h ▸ List.mem_cons_self)
      rw [List.cons_append, from?, if_neg hfirst]
      exact ih (fun h => hnot (List.mem_cons_of_mem _ h)) rest

/-- What is found was there. -/
theorem mem_of_from? {line : Line} {listing rest : Listing} (h : from? line listing = some rest) :
    line ∈ listing := by
  induction listing with
  | nil => cases h
  | cons first listing ih =>
      rw [from?] at h
      by_cases hfirst : first = line
      · rw [hfirst]
        exact List.mem_cons_self
      · rw [if_neg hfirst] at h
        exact List.mem_cons_of_mem _ (ih h)

/-- If no name is defined twice, a label is found wherever it stands. -/
theorem from?_label {listing rest : Listing} {n : Name} (hnodup : (definitions listing).Nodup)
    (h : .label n :: rest <:+ listing) : from? (.label n) listing = some (.label n :: rest) := by
  obtain ⟨front, rfl⟩ := h
  have hsplit : definitions (front ++ .label n :: rest) =
      definitions front ++ n :: definitions rest := by
    simp [definitions, defined?]
  rw [hsplit] at hnodup
  -- an earlier line with this label would define the name twice
  have hnot : n ∉ definitions front := by
    intro hn
    exact (List.nodup_append.1 hnodup).2.2 n hn n List.mem_cons_self rfl
  exact from?_append (fun h => hnot (List.mem_filterMap.2 ⟨_, h, rfl⟩)) rest

theorem above?_of_length_lt {below : Nat} {listing : Listing} (h : listing.length ≤ below) :
    above? below listing = none := by
  cases listing with
  | nil => rfl
  | cons first rest =>
      have hlt : rest.length < below := h
      rw [above?, if_pos hlt]

theorem above?_of_not_mem {ahead : Listing} :
    ∀ {between : Listing}, .anonymous ∉ between →
      above? ahead.length (between ++ ahead) = none := by
  intro between
  induction between with
  | nil =>
      intro _
      exact above?_of_length_lt (Nat.le_refl _)
  | cons first between ih =>
      intro hnot
      have hfirst : first ≠ .anonymous := fun h => hnot (h ▸ List.mem_cons_self)
      have hrest := ih fun h => hnot (List.mem_cons_of_mem _ h)
      rw [List.cons_append, above?, hrest, if_neg hfirst]
      exact ite_self none

/-- The last anonymous label above some lines is found, whatever stands above it. -/
theorem above?_append {between ahead : Listing} (hnot : .anonymous ∉ between) :
    ∀ front : Listing, above? ahead.length (front ++ .anonymous :: (between ++ ahead)) =
      some (.anonymous :: (between ++ ahead)) := by
  intro front
  have hlong : ¬ (between ++ ahead).length < ahead.length := by
    simp
  induction front with
  | nil =>
      rw [List.nil_append, above?, if_neg hlong, above?_of_not_mem hnot, if_pos rfl]
      rfl
  | cons first front ih =>
      have hlong' : ¬ (front ++ .anonymous :: (between ++ ahead)).length < ahead.length := by
        simp
        omega
      rw [List.cons_append, above?, if_neg hlong', ih]
      rfl

/-! ## Processes -/

/-- An image in execution. -/
structure Process where
  /-- The lines that are still ahead. -/
  ahead : Listing
  /-- Where the called routines return to, innermost first. -/
  returns : List Listing
  cpu : Cpu

/-- What executing a line leads to. -/
inductive Next where
  | running (p : Process)
  | exited (status : Nat) (c : Cpu)

namespace Image

/-- The memory at the start: the data, and unspecified contents elsewhere. -/
def memory (image : Image) (platform : Platform) (a : BitVec 64) : UInt8 :=
  if image.mapped a then image.data.getD (a.toNat - image.origin) 0 else platform.entry.memory a

/-- The processor at the start. -/
def entry (image : Image) (platform : Platform) (input : List UInt8) : Cpu :=
  { platform.entry with memory := image.memory platform, input, stdout := [], stderr := [] }

/-- The process that an image starts as. -/
def start? (image : Image) (platform : Platform) (input : List UInt8) : Option Process := do
  let ahead ← from? (.label .entryPoint) image.listing
  return { ahead, returns := [], cpu := image.entry platform input }

theorem start?_of_from? {image : Image} {ahead : Listing}
    (h : from? (.label .entryPoint) image.listing = some ahead) (platform : Platform)
    (input : List UInt8) :
    image.start? platform input = some ⟨ahead, [], image.entry platform input⟩ := by
  rw [start?, h]
  rfl

end Image

/-- Execute one line. -/
def Process.step? (platform : Platform) (image : Image) : Process → Option Next
  | ⟨.code (.jump j target) :: ahead, returns, c⟩ => do
      let there ← target? image.listing ahead target
      return .running ⟨if c.flags.holds j then there else ahead, returns, c⟩
  | ⟨.code (.call n) :: ahead, returns, c⟩ => do
      let there ← from? (.label n) image.listing
      return .running ⟨there, ahead :: returns, c⟩
  | ⟨.code .ret :: _, there :: returns, c⟩ => some (.running ⟨there, returns, c⟩)
  | ⟨.code .ret :: _, [], _⟩ => none
  | ⟨.code .syscall :: ahead, returns, c⟩ => do
      match ← image.systemCall? platform c with
      | .exit status => some (.exited status c)
      | .resume c => some (.running ⟨ahead, returns, c⟩)
  | ⟨.code o :: ahead, returns, c⟩ => do
      let c ← image.operate? platform o c
      return .running ⟨ahead, returns, c⟩
  | ⟨.blank :: ahead, returns, c⟩ | ⟨.format :: ahead, returns, c⟩
  | ⟨.entry _ :: ahead, returns, c⟩ | ⟨.define _ _ :: ahead, returns, c⟩
  | ⟨.label _ :: ahead, returns, c⟩ | ⟨.anonymous :: ahead, returns, c⟩
  | ⟨.comment _ :: ahead, returns, c⟩ => some (.running ⟨ahead, returns, c⟩)
  | ⟨.codeSegment :: _, _, _⟩ | ⟨.dataSegment :: _, _, _⟩ | ⟨.bytes .. :: _, _, _⟩
  | ⟨.reserve .. :: _, _, _⟩ | ⟨[], _, _⟩ => none

namespace Process

/-- The process is at the definition of a label. -/
def At (image : Image) (p : Process) (n : Name) : Prop :=
  from? (.label n) image.listing = some p.ahead

variable (platform : Platform) (image : Image)

/-- One move that does not end the process. -/
def Moves (p p' : Process) : Prop :=
  p.step? platform image = some (.running p')

/-- Some moves. -/
abbrev Reaches : Process → Process → Prop :=
  Relation.ReflTransGen (Moves platform image)

/-- The process ends with a status. -/
def Exits (p : Process) (status : Nat) (c : Cpu) : Prop :=
  ∃ last, Reaches platform image p last ∧ last.step? platform image = some (.exited status c)

/-- The process always makes another move. -/
def RunsForever (p : Process) : Prop :=
  ∀ p', Reaches platform image p p' → ∃ p'', Moves platform image p' p''

variable {platform image}

/-! ## Ends -/

theorem Moves.unique {p p' p'' : Process} (h : Moves platform image p p')
    (h' : Moves platform image p p'') : p' = p'' := by
  have heq : some (Next.running p') = some (Next.running p'') := h.symm.trans h'
  cases heq
  rfl

theorem Moves.step?_ne_none {p p' : Process} (h : Moves platform image p p') :
    p.step? platform image ≠ none := by
  have hstep : p.step? platform image = some (.running p') := h
  rw [hstep]
  exact nofun

theorem moves_rightUnique : Relator.RightUnique (Moves platform image) := by
  intro p p' p'' h h'
  exact h.unique h'

/-- A process that ends has no moves to make once it ends. -/
theorem Reaches.eq_of_exited {p p' : Process} {status : Nat} {c : Cpu}
    (h : p.step? platform image = some (.exited status c)) (hr : Reaches platform image p p') :
    p' = p := by
  rcases Relation.ReflTransGen.cases_head hr with rfl | ⟨q, hq, -⟩
  · rfl
  · have heq : some (Next.exited status c) = some (Next.running q) := h.symm.trans hq
    cases heq

theorem Exits.of_reaches {p p' : Process} {status : Nat} {c : Cpu}
    (hr : Reaches platform image p p') (h : Exits platform image p' status c) :
    Exits platform image p status c := by
  obtain ⟨last, hlast, hexit⟩ := h
  exact ⟨last, hr.trans hlast, hexit⟩

/-- Whatever a process reaches, it ends from there as it ends. -/
theorem Exits.after {p p' : Process} {status : Nat} {c : Cpu}
    (h : Exits platform image p status c) (hr : Reaches platform image p p') :
    Exits platform image p' status c := by
  obtain ⟨last, hlast, hexit⟩ := h
  -- the process goes one way, so one of the two places is behind the other
  rcases hlast.total_of_right_unique moves_rightUnique hr with hlate | hearly
  · obtain rfl := Reaches.eq_of_exited hexit hlate
    exact ⟨_, .refl, hexit⟩
  · exact ⟨last, hearly, hexit⟩

/-- **A process ends in one way only.** -/
theorem Exits.unique {p : Process} {status status' : Nat} {c c' : Cpu}
    (h : Exits platform image p status c) (h' : Exits platform image p status' c') :
    status = status' ∧ c = c' := by
  obtain ⟨last, hlast, hexit⟩ := h
  obtain ⟨last', hlast', hexit'⟩ := Exits.after h' hlast
  obtain rfl := Reaches.eq_of_exited hexit hlast'
  have heq : some (Next.exited status c) = some (Next.exited status' c') := hexit.symm.trans hexit'
  cases heq
  exact ⟨rfl, rfl⟩

/-- Whatever a process that ends can reach has a line that can be executed. -/
theorem Exits.step?_ne_none {p p' : Process} {status : Nat} {c : Cpu}
    (h : Exits platform image p status c) (hr : Reaches platform image p p') :
    p'.step? platform image ≠ none := by
  obtain ⟨last, hlast, hexit⟩ := h.after hr
  rcases Relation.ReflTransGen.cases_head hlast with rfl | ⟨q, hmove, -⟩
  · rw [hexit]
    exact nofun
  · exact hmove.step?_ne_none

theorem RunsForever.not_exits {p : Process} (h : RunsForever platform image p) (status : Nat)
    (c : Cpu) : ¬ Exits platform image p status c := by
  rintro ⟨last, hlast, hexit⟩
  obtain ⟨p', hp'⟩ := h last hlast
  have heq : some (Next.exited status c) = some (Next.running p') := hexit.symm.trans hp'
  cases heq

theorem RunsForever.of_reaches {p p' : Process} (hr : Reaches platform image p p')
    (h : RunsForever platform image p') : RunsForever platform image p := by
  intro q hq
  rcases hr.total_of_right_unique moves_rightUnique hq with hlate | hearly
  · exact h q hlate
  · rcases Relation.ReflTransGen.cases_head hearly with rfl | ⟨q', hmove, -⟩
    · exact h q .refl
    · exact ⟨q', hmove⟩

/-- A property that a process keeps by making another move keeps it running forever. -/
theorem runsForever_of_invariant {P : Process → Prop}
    (hstep : ∀ p, P p → ∃ p', Moves platform image p p' ∧ P p') {p : Process} (hp : P p) :
    RunsForever platform image p := by
  -- the move that keeps the property is the only one there is
  have hall : ∀ p', Reaches platform image p p' → P p' := by
    intro p' hr
    induction hr with
    | refl => exact hp
    | tail _ hmove ih =>
        obtain ⟨q, hq, hP⟩ := hstep _ ih
        obtain rfl := hq.unique hmove
        exact hP
  intro p' hr
  obtain ⟨q, hq, -⟩ := hstep p' (hall p' hr)
  exact ⟨q, hq⟩

/-! ## Single lines -/

variable {ahead there : Listing} {returns : List Listing} {c c' : Cpu}

/-- A move goes on with the next line, or to the target of a jump, unless the line is a call or a
return. -/
theorem Moves.ahead_cases {line : Line} {p : Process}
    (h : Moves platform image ⟨line :: ahead, returns, c⟩ p) :
    p.ahead = ahead ∨
      (∃ j target, line = .code (.jump j target) ∧
        target? image.listing ahead target = some p.ahead) ∨
      (∃ n, line = .code (.call n)) ∨ line = .code .ret := by
  have hnext : ∀ {c' : Option Cpu}, (c'.bind fun c => some (.running ⟨ahead, returns, c⟩)) =
      some (Next.running p) → p.ahead = ahead := by
    intro c' hc
    obtain ⟨c, -, hp⟩ := Option.bind_eq_some_iff.1 hc
    cases hp
    rfl
  cases line with
  | blank | format | entry n | define n v | label n | anonymous | comment note =>
      cases h
      exact .inl rfl
  | codeSegment | dataSegment | bytes n text | reserve n v => cases h
  | code o =>
      cases o with
      | binary op dst src => exact .inl (hnext h)
      | unary op arg => exact .inl (hnext h)
      | lea dst a => exact .inl (hnext h)
      | call n => exact .inr (.inr (.inl ⟨n, rfl⟩))
      | ret => exact .inr (.inr (.inr rfl))
      | jump j target =>
          obtain ⟨there, ht, hp⟩ := Option.bind_eq_some_iff.1 h
          cases hp
          by_cases hj : c.flags.holds j = true
          · exact .inr (.inl ⟨j, target, rfl, by rw [ht]; exact congrArg some (if_pos hj).symm⟩)
          · exact .inl (if_neg hj)
      | syscall =>
          obtain ⟨result, -, hp⟩ := Option.bind_eq_some_iff.1 h
          cases result with
          | exit status => cases hp
          | resume c' =>
              cases hp
              exact .inl rfl

theorem moves_operate {o : Operation} (h : image.operate? platform o c = some c') :
    Moves platform image ⟨.code o :: ahead, returns, c⟩ ⟨ahead, returns, c'⟩ := by
  cases o with
  | binary op dst src =>
      show (image.operate? platform (.binary op dst src) c).bind _ = _
      rw [h]
      rfl
  | unary op arg =>
      show (image.operate? platform (.unary op arg) c).bind _ = _
      rw [h]
      rfl
  | lea dst a =>
      show (image.operate? platform (.lea dst a) c).bind _ = _
      rw [h]
      rfl
  | jump j target => cases h
  | call n => cases h
  | ret => cases h
  | syscall => cases h

theorem moves_label {n : Name} :
    Moves platform image ⟨.label n :: ahead, returns, c⟩ ⟨ahead, returns, c⟩ := rfl

theorem moves_anonymous :
    Moves platform image ⟨.anonymous :: ahead, returns, c⟩ ⟨ahead, returns, c⟩ := rfl

theorem moves_blank :
    Moves platform image ⟨.blank :: ahead, returns, c⟩ ⟨ahead, returns, c⟩ := rfl

theorem moves_comment {note : Comment} :
    Moves platform image ⟨.comment note :: ahead, returns, c⟩ ⟨ahead, returns, c⟩ := rfl

theorem moves_jump {j : Jump} {target : Target}
    (ht : target? image.listing ahead target = some there) (hj : c.flags.holds j = true) :
    Moves platform image ⟨.code (.jump j target) :: ahead, returns, c⟩ ⟨there, returns, c⟩ := by
  show (target? image.listing ahead target).bind _ = _
  rw [ht, Option.bind_some, if_pos hj]
  rfl

theorem moves_noJump {j : Jump} {target : Target}
    (ht : target? image.listing ahead target = some there) (hj : c.flags.holds j = false) :
    Moves platform image ⟨.code (.jump j target) :: ahead, returns, c⟩ ⟨ahead, returns, c⟩ := by
  show (target? image.listing ahead target).bind _ = _
  rw [ht, Option.bind_some, if_neg (by rw [hj]; decide)]
  rfl

theorem moves_call {n : Name} (ht : from? (.label n) image.listing = some there) :
    Moves platform image ⟨.code (.call n) :: ahead, returns, c⟩ ⟨there, ahead :: returns, c⟩ := by
  show (from? (.label n) image.listing).bind _ = _
  rw [ht]
  rfl

theorem moves_ret :
    Moves platform image ⟨.code .ret :: ahead, there :: returns, c⟩ ⟨there, returns, c⟩ := rfl

theorem moves_syscall (h : image.systemCall? platform c = some (.resume c')) :
    Moves platform image ⟨.code .syscall :: ahead, returns, c⟩ ⟨ahead, returns, c'⟩ := by
  show (image.systemCall? platform c).bind _ = _
  rw [h]
  rfl

theorem step?_syscall {status : Nat} (h : image.systemCall? platform c = some (.exit status)) :
    step? platform image ⟨.code .syscall :: ahead, returns, c⟩ = some (.exited status c) := by
  show (image.systemCall? platform c).bind _ = _
  rw [h]
  rfl

theorem exits_syscall {status : Nat} (h : image.systemCall? platform c = some (.exit status)) :
    Exits platform image ⟨.code .syscall :: ahead, returns, c⟩ status c :=
  ⟨_, .refl, step?_syscall h⟩

end Process

end TapeLang.Native
