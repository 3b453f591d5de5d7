import TapeLang.Proofs.Generator.Quoting
import TapeLang.Proofs.Native.Endings

/-!
# Fault reports

The routine of an edge reports what a run would report: the text of the fault with the number in
`r13` as its index. It does so from whatever state it is entered, for every number that fits into
the register, as long as the message is still what it was when the image was loaded
(`Cpu.KeepsMessage`). `ReportsFault` also says what the routine does not do on its way: it writes
nothing to the output stream, it never comes to a line that cannot be executed, no quotient is too
large for a register, and nothing is stored outside the room for digits.

Texts of faults are ASCII (`isAscii_report`), so that each character is one byte.
-/

set_option autoImplicit false

namespace TapeLang.Native

open Assembly

/-! ## ASCII -/

/-- Whether a text has ASCII characters only. -/
def isAscii (text : String) : Bool :=
  text.toList.all fun c => decide (c.toNat < 128)

theorem isAscii_append {s t : String} (hs : isAscii s = true) (ht : isAscii t = true) :
    isAscii (s ++ t) = true := by
  rw [isAscii, String.toList_append, List.all_append, Bool.and_eq_true]
  exact ⟨hs, ht⟩

/-- A number is written in ASCII. -/
theorem isAscii_nat (n : Nat) : isAscii (toString n) = true := by
  rw [isAscii, List.all_eq_true]
  intro c hc
  have hdigit := isDigit_of_mem_toString hc
  simp only [Char.isDigit, Bool.and_eq_true, decide_eq_true_eq] at hdigit
  exact decide_eq_true (Nat.lt_of_le_of_lt hdigit.2 (by decide))

/-- The bytes of an ASCII text are the codes of its characters. -/
theorem bytesOf_of_isAscii {text : String} (h : isAscii text = true) :
    bytesOf text = text.toList.map Char.toUInt8 := by
  rw [isAscii, List.all_eq_true] at h
  rw [bytesOf, ← List.flatMap_singleton' (text.toList.map Char.toUInt8), List.flatMap_map]
  apply List.flatMap_congr
  intro c hc
  have hsize : c.utf8Size = 1 := by
    rw [Char.utf8Size_eq_one_iff, UInt32.le_iff_toNat_le]
    exact Nat.le_of_lt_succ (of_decide_eq_true (h c hc))
  rw [String.utf8EncodeChar_eq_singleton hsize]
  rfl

theorem isAscii_report (e : Edge) (k : Nat) (pointer : Int) :
    isAscii ((Fault.edge e k pointer).message ++ "\n") = true := by
  have hmessage : (Fault.edge e k pointer).message =
      e.description ++ " at instruction " ++ toString k := rfl
  have hfront : isAscii (e.description ++ " at instruction ") = true := by
    cases e <;> rfl
  rw [hmessage]
  exact isAscii_append (isAscii_append hfront (isAscii_nat k)) rfl

/-! ## Reports -/

/-- The message of an edge lies in memory as it was loaded. -/
def Cpu.KeepsMessage (platform : Platform) (image : Image) (e : Edge) (c : Cpu) : Prop :=
  ∀ a length : Nat, image.symbols.lookup (.edgeMessage e) = some (a : Int) →
    image.symbols.lookup (.edgeMessageLength e) = some (length : Int) →
      ∀ i < length, c.memory (BitVec.ofNat 64 (a + i)) =
        image.memory platform (BitVec.ofNat 64 (a + i))

/-- A process writes the text of the fault at an edge, with the number in `r13` as its index, and a
newline to the error stream, and ends with status one. On its way it writes nothing else, comes to
no line that cannot be executed, divides only what has a quotient of 64 bits, and stores only in the
room for digits. -/
structure ReportsFault (platform : Platform) (image : Image) (digits : Nat) (e : Edge)
    (p : Process) : Prop where
  exits : ∃ c, p.Exits platform image 1 c ∧ c.stdout = p.cpu.stdout ∧ ∀ pointer : Int,
    let report := (Fault.edge e p.cpu.r13.toNat pointer).message ++ "\n"
    isAscii report = true ∧ c.stderr = p.cpu.stderr ++ report.toList.map Char.toUInt8
  executable : ∀ q, Process.Reaches platform image p q → q.step? platform image ≠ none
  quotient_lt : ∀ q, Process.Reaches platform image p q →
    ∀ divisor, q.Divides image divisor → divisor.toNat ≠ 0 ∧
      (q.cpu.rdx.toNat * 2 ^ 64 + q.cpu.rax.toNat) / divisor.toNat < 2 ^ 64
  stores : ∀ q, Process.Reaches platform image p q →
    ∀ a, q.storesAt? image = some a → InRoom digits a
  memory_eq : ∀ q, Process.Reaches platform image p q →
    ∀ a, ¬ InRoom digits a → q.cpu.memory a = p.cpu.memory a

section Report

variable {platform : Platform} {image : Image} {config : TapeConfig} {base digits : Nat} {e : Edge}
  {p : Process}

/-- A message that was kept is the one of the fault. -/
theorem stores_of_keepsMessage (hl : Loaded image config base) (hr : Reports image digits base)
    {c : Cpu} (h : c.KeepsMessage platform image e) :
    ∃ a : Nat, image.symbols.lookup (.edgeMessage e) = some (a : Int) ∧
      c.Stores a (messageBytes e) := by
  obtain ⟨a, ha, hlength, hholds, -⟩ := hr.message e
  refine ⟨a, ha, ?_⟩
  intro i hi
  rw [h a _ ha hlength i hi, hholds.memory hl.fits platform hi]

/-- **The routine of an edge reports the fault**, from whatever state it is entered. -/
theorem reportsFault_of_at (hl : Loaded image config base) (hr : Reports image digits base)
    (hat : p.At image (.edge e)) (hkeeps : p.cpu.KeepsMessage platform image e) :
    ReportsFault platform image digits e p := by
  obtain ⟨hw, after, hp⟩ := hl.ahead_eq hat
  obtain ⟨a, ha, hstores⟩ := stores_of_keepsMessage hl hr hkeeps
  obtain ⟨c, hexits, hspares, hstderr⟩ := exits_edge hl hw hr ha rfl hstores
  rw [← hp] at hexits
  refine ⟨⟨c, hexits.exits, hspares.stdout_eq, ?_⟩, ?_, ?_, ?_, ?_⟩
  · intro pointer report
    have hascii := isAscii_report e p.cpu.r13.toNat pointer
    refine ⟨hascii, ?_⟩
    rw [← bytesOf_of_isAscii hascii, bytesOf_report, hstderr]
  · intro q hq
    exact hexits.exits.step?_ne_none hq
  · intro q hq divisor hdivides
    exact Process.quotient_lt_of_step? hdivides (hexits.exits.step?_ne_none hq)
  · intro q hq b hb
    exact (hexits.after hq).2.room_of_storesAt? hb
  · intro q hq b hb
    exact Process.ReachesWithin.memory_eq (hexits.after hq).1 hb

end Report

/-- Only a listing whose tape length is a number can be assembled. -/
theorem exists_number_of_assemble? {origin : Nat} {config : TapeConfig} {annotate : Bool} {b : Body}
    {image : Image} (h : assemble? origin (listingOf config annotate b) = some image) :
    ∃ cells, config.length = .number cells := by
  cases hlength : config.length with
  | number cells => exact ⟨cells, rfl⟩
  | truth =>
      -- the truth value is refused where the length is defined
      have hheader : (header .truth).foldlM (Layout.place? origin) {} = none := rfl
      rw [assemble?, listingOf, hlength, List.foldlM_append, hheader] at h
      cases h

/-- The message of every edge is in the data of a bounded listing. -/
theorem bytes_mem_listingOf {config : TapeConfig} (hw : config.wraps = false) (annotate : Bool)
    (b : Body) (e : Edge) :
    .bytes (.edgeMessage e) (e.description ++ " at instruction ") ∈
      listingOf config annotate b := by
  have hdata : .bytes (.edgeMessage e) (e.description ++ " at instruction ") ∈
      dataSegment config := by
    rw [dataSegment, hw]
    cases e <;> simp [Edge.all, edgeMessage]
  rw [listingOf, trailer]
  simp [hdata]

/-- **The reporter prints the text of the fault.** Let the tape be bounded and `listing` generated
for it. It can be assembled at every address that leaves room for its data, if its length is a
number. Each message stands in it as a literal that reads back. However the listing was assembled,
there are 21 bytes of room for digits and a routine for every edge. On every platform and in every
state with the message in place, the routine reports the fault of its edge at the index in `r13`,
whatever that is, as `ReportsFault` says. -/
theorem reporter_prints_fault (g : Generator) (p : Program) (listing : Listing)
    (hbounded : g.config.policy = .bounded) (hlisting : (g.generate p).2 = .ok listing) :
    (∀ cells origin : Nat, g.config.length = .number cells → origin ≤ 2 ^ 63 →
      (assemble? origin listing).isSome = true) ∧
    (∀ e : Edge, ∃ text, .bytes (.edgeMessage e) text ∈ listing ∧
      readQuoted? (quoted text) = some (text, "")) ∧
    ∀ (origin : Nat) (image : Image), assemble? origin listing = some image →
      ∃ digits : Nat, image.symbols.lookup .digits = some (digits : Int) ∧
        ∀ e : Edge, ∃ ahead, from? (.label (.edge e)) image.listing = some ahead ∧
          ∀ (platform : Platform) (returns : List Listing) (c : Cpu),
            c.KeepsMessage platform image e →
              ReportsFault platform image digits e ⟨ahead, returns, c⟩ := by
  have hgenerated := g.generate_eq (Generator.delimiterFree_of_generate hlisting)
  obtain rfl := Except.ok.inj (hlisting.symm.trans hgenerated)
  have hw : g.config.wraps = false := by
    rw [TapeConfig.wraps, hbounded]
    rfl
  refine ⟨?_, ?_, ?_⟩
  · intro cells origin hlength horigin
    exact isSome_assemble? hlength horigin g.annotate p.body
  · intro e
    refine ⟨_, bytes_mem_listingOf hw g.annotate p.body e, ?_⟩
    apply readQuoted?_eq_some_iff.2
    exact ⟨(String.append_empty ..).symm, (Option.some_ne_none _).symm⟩
  · intro origin image himage
    obtain ⟨cells, hlength⟩ := exists_number_of_assemble? himage
    obtain ⟨-, base, hl⟩ := loaded_of_assemble? hlength himage
    obtain ⟨digits, hr⟩ := hl.reports hw
    refine ⟨digits, hr.digits_value, ?_⟩
    intro e
    obtain ⟨after, hsuffix⟩ := hl.edge_suffix hw e
    have hahead := from?_label hl.nodup hsuffix
    refine ⟨_, hahead, ?_⟩
    intro platform returns c hkeeps
    exact reportsFault_of_at hl hr hahead hkeeps

/-- The greatest index has twenty digits, which fill the room up to its first byte. -/
theorem reporter_prints_greatest_index :
    ∃ listing image ahead, (Generator.generate {} {}).2 = .ok listing ∧
      assemble? 4096 listing = some image ∧
      from? (.label (.edge .cellOverflow)) image.listing = some ahead ∧
      ∀ platform : Platform,
        let c := { image.entry platform [] with r13 := BitVec.allOnes 64 }
        ∃ c', Process.Exits platform image ⟨ahead, [], c⟩ 1 c' ∧ c'.stdout = [] ∧
          c'.stderr =
            "cell incremented past 255 at instruction 18446744073709551615\n".toList.map
              Char.toUInt8 := by
  have hlisting := Generator.generate_eq {} (p := {}) trivial
  obtain ⟨hassembles, -, hreports⟩ := reporter_prints_fault {} {} _ rfl hlisting
  obtain ⟨image, himage⟩ := Option.isSome_iff_exists.1 (hassembles 30000 4096 rfl (by decide))
  obtain ⟨digits, -, hroutines⟩ := hreports 4096 image himage
  obtain ⟨ahead, hahead, hreport⟩ := hroutines .cellOverflow
  refine ⟨_, image, ahead, hlisting, himage, hahead, ?_⟩
  intro platform c
  obtain ⟨c', hexits, hstdout, hstderr⟩ :=
    (hreport platform [] c fun _ _ _ _ _ _ => rfl).exits
  refine ⟨c', hexits, hstdout, ?_⟩
  have htext : (Fault.edge .cellOverflow (BitVec.allOnes 64).toNat 0).message ++ "\n" =
      "cell incremented past 255 at instruction 18446744073709551615\n" := rfl
  rw [← htext]
  exact (hstderr 0).2.trans (List.nil_append _)

end TapeLang.Native
