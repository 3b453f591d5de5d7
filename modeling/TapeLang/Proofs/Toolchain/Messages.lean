import Mathlib.Data.List.Nodup
import TapeLang.Proofs.Native.Correctness
import TapeLang.Proofs.Nesting.Outline
import TapeLang.Proofs.Toolchain.Faults

/-!
# What the text of a fault tells

The text of a fault is made of its kind and its index, and of nothing else
(`Fault.toList_message`): a description, the index in decimal, and for a loop that was never closed
a remark behind the index. Both parts can be read back. The kind is told by the first sixteen
characters, before any digit that belongs to the index (`Fault.Kind.nodup_leads`). The index is what
is left if the same texts are taken away in front and behind.

So texts can stand for faults (`Fault.message_eq_iff`), also as bytes (`bytesOf_injective`). The
main statement, `message_identifies_fault`, adds what this means for the two ways of executing a
program: what a compiled program reports is the text of a fault exactly if interpreting the program
ends in a fault of that kind at that index.
-/

set_option autoImplicit false

namespace TapeLang

/-! ## The parts of a text -/

namespace Fault

namespace Kind

/-- The six kinds that classify no others. -/
def concrete : List Kind :=
  [unmatchedOpen, unmatchedClose] ++ Edge.all.map edge

/-- What is wrong if there is a fault of this kind. -/
def description : Kind → String
  | general | structural | tape => "fault"
  | unmatchedOpen => "unmatched loop-open"
  | unmatchedClose => "unmatched loop-close"
  | edge e => e.description

/-- The remark behind the index. -/
def remark : Kind → String
  | unmatchedOpen => ": no corresponding loop-close found"
  | _ => ""

/-- The first sixteen characters of a description. -/
def lead (k : Kind) : List Char :=
  k.description.toList.take 16

/-- **Different kinds begin differently.** -/
theorem nodup_leads : (concrete.map lead).Nodup := by
  decide

/-- No description is shorter than its lead. -/
theorem le_length_description {k : Kind} (h : k ∈ concrete) : 16 ≤ k.description.toList.length := by
  have hall : (concrete.all fun k => decide (16 ≤ k.description.toList.length)) = true := by
    decide
  exact of_decide_eq_true (List.all_eq_true.1 hall k h)

end Kind

theorem kind_edge_mem_concrete (e : Edge) (index pointer : Int) :
    (edge e index pointer).kind ∈ Kind.concrete := by
  cases e <;> simp [kind, Kind.concrete, Edge.all]

/-- **The text of a fault is made of its kind and its index**, whatever the pointer. -/
theorem toList_message (f : Fault) :
    f.message.toList = f.kind.description.toList ++ (" at instruction ".toList ++
      ((toString f.index).toList ++ f.kind.remark.toList)) := by
  have hdescription : f.description = f.kind.description := by
    cases f <;> rfl
  have hmessage : f.message =
      f.kind.description ++ " at instruction " ++ toString f.index ++ f.kind.remark := by
    rw [← hdescription]
    cases f with
    | unmatchedOpen i => rfl
    | general i | structural i | unmatchedClose i | tape i p | edge e i p =>
        exact (String.append_empty ..).symm
  rw [hmessage]
  simp only [String.toList_append, List.append_assoc]

/-- The text of a fault begins as its kind does. -/
theorem take_message {f : Fault} (hf : f.kind ∈ Kind.concrete) :
    f.message.toList.take 16 = f.kind.lead := by
  rw [toList_message, List.take_append_of_le_length (Kind.le_length_description hf)]
  rfl

/-- **Texts are equal exactly if kind and index are.** -/
theorem message_eq_iff {f g : Fault} (hf : f.kind ∈ Kind.concrete) (hg : g.kind ∈ Kind.concrete) :
    f.message = g.message ↔ f.kind = g.kind ∧ f.index = g.index := by
  constructor
  · intro h
    have hchars := congrArg String.toList h
    have hkind : f.kind = g.kind := by
      apply List.inj_on_of_nodup_map Kind.nodup_leads hf hg
      rw [← take_message hf, ← take_message hg, hchars]
    -- texts of one kind differ in the index alone
    rw [toList_message, toList_message, hkind] at hchars
    have hindex := List.append_cancel_left (List.append_cancel_left hchars)
    exact ⟨hkind, toString_int_inj (List.append_cancel_right hindex)⟩
  · rintro ⟨hkind, hindex⟩
    apply String.toList_injective
    rw [toList_message, toList_message, hkind, hindex]

/-- The kinds that classify others share one description. -/
example : (general 5).message = (structural 5).message := rfl

end Fault

/-! ## Compiled programs -/

/-- Interpreting a program ends in a fault if its run on a fresh machine does. -/
theorem interpret_eq_fault_iff {source : String} {p : Program} (hp : (parse source).value = .ok p)
    {config : TapeConfig} {input : List UInt8} {hasSink : Bool} {fuel : Nat} {f : Fault}
    {m : Machine} :
    (interpret fuel source config input hasSink).value = ⟨some (.fault f), m, ()⟩ ↔
      (Machine.start config input hasSink).run .idle () fuel p =
        ⟨.blocked (.fault f), m, ()⟩ := by
  rw [interpret, value_interpretWatched_of_ok _ _ _ hp]
  exact Run.interpretation_eq_fault_iff

namespace Native

open Assembly

/-- Texts with the same bytes are the same. -/
theorem bytesOf_injective : Function.Injective bytesOf := by
  intro s t h
  have hencoded : s.toList.utf8Encode = t.toList.utf8Encode :=
    congrArg List.toByteArray h
  rw [String.utf8Encode_toList, String.utf8Encode_toList] at hencoded
  exact String.toByteArray_inj.1 hencoded

theorem bytesOf_report_inj {f g : Fault} :
    bytesOf (f.message ++ "\n") = bytesOf (g.message ++ "\n") ↔ f.message = g.message := by
  constructor
  · intro h
    have htexts := congrArg String.toList (bytesOf_injective h)
    rw [String.toList_append, String.toList_append] at htexts
    exact String.toList_injective (List.append_cancel_right htexts)
  · intro h
    rw [h]

/-- An execution of a compiled text that ends in a fault: the text is a program, the generator makes
a listing of it for a tape whose length is a number, and the listing is assembled somewhere and
executed on some platform until it exits with status one. -/
structure FailedExecution (source : String) (g : Generator) (input : List UInt8) where
  program : Program
  parse_eq : (parse source).value = .ok program
  count_lt : program.instructionCount < 2 ^ 63
  cells : Nat
  length_eq : g.config.length = .number cells
  listing : Listing
  generate_eq : (g.generate program).2 = .ok listing
  origin : Nat
  image : Image
  assemble_eq : assemble? origin listing = some image
  platform : Platform
  start : Process
  start_eq : image.start? platform input = some start
  /-- The processor after the last instruction. -/
  final : Cpu
  exits : start.Exits platform image 1 final

section Executions

variable {source : String} {g : Generator} {input : List UInt8}

/-- However the listing of a program was assembled, its process does what the program does. -/
theorem exists_implements {p : Program} (hparse : (parse source).value = .ok p)
    (hcount : p.instructionCount < 2 ^ 63) {cells : Nat} (hlength : g.config.length = .number cells)
    {listing : Listing} (hlisting : (g.generate p).2 = .ok listing) {origin : Nat} {image : Image}
    (himage : assemble? origin listing = some image) (platform : Platform) (input : List UInt8)
    (hasSink : Bool) :
    ∃ start, image.start? platform input = some start ∧
      Implements platform image start p (Machine.start g.config input hasSink) := by
  obtain ⟨-, -, hfree⟩ := flatten_of_nestLogged (parse_value source ▸ hparse)
  obtain rfl := Except.ok.inj (hlisting.symm.trans (g.generate_eq hfree))
  obtain ⟨hlines, base, hl⟩ := loaded_of_assemble? hlength himage
  obtain ⟨start, q, hstart, hreaches, hmatches⟩ :=
    start_matches hl (encodable_of_parse hparse hcount) hlines platform input hasSink
  exact ⟨start, hstart, (hmatches.fate hl hreaches).implements hl⟩

namespace FailedExecution

theorem implements (x : FailedExecution source g input) (hasSink : Bool) :
    Implements x.platform x.image x.start x.program (Machine.start g.config input hasSink) := by
  obtain ⟨start, hstart, himplements⟩ := exists_implements x.parse_eq x.count_lt x.length_eq
    x.generate_eq x.assemble_eq x.platform input hasSink
  obtain rfl : x.start = start := Option.some.inj (x.start_eq.symm.trans hstart)
  exact himplements

/-- **What a failed execution reports is the text of the fault that interpreting ends in**, which is
of a concrete kind. -/
theorem stderr_of_interpret (x : FailedExecution source g input) {hasSink : Bool} {fuel : Nat}
    {f : Fault} {m : Machine}
    (h : (interpret fuel source g.config input hasSink).value = ⟨some (.fault f), m, ()⟩) :
    f.kind ∈ Fault.Kind.concrete ∧ x.final.stderr = bytesOf (f.message ++ "\n") := by
  have hrun := (interpret_eq_fault_iff x.parse_eq).1 h
  constructor
  · -- what stops a run is one of the four edges
    obtain ⟨-, edge, k, offset, i, rfl, -⟩ := namesCause_of_run x.parse_eq hrun
    exact Fault.kind_edge_mem_concrete edge k m.tape.pointer
  · obtain ⟨f', hf', -, hstderr⟩ := (x.implements hasSink).reported x.exits hrun
    rwa [← Obstacle.fault.inj hf'] at hstderr

/-- Interpreting the text of a failed execution ends in a fault. -/
theorem exists_interpret (x : FailedExecution source g input) (hasSink : Bool) :
    ∃ fuel f m,
      (interpret fuel source g.config input hasSink).value = ⟨some (.fault f), m, ()⟩ := by
  have himplements := x.implements hasSink
  obtain ⟨fuel, o, m, hrun⟩ := himplements.exits_one_iff.1 ⟨x.final, x.exits⟩
  obtain ⟨f, rfl, -⟩ := himplements.reported x.exits hrun
  exact ⟨fuel, f, m, (interpret_eq_fault_iff x.parse_eq).2 hrun⟩

end FailedExecution

end Executions

end Native

/-- **The text of a fault identifies the fault.** For all faults of the six concrete kinds, with
whatever indices and pointers, the texts are equal exactly if the kinds and the indices are. And if
a compiled text is executed and exits with status one, what it reports is the text of a fault, with
a newline, exactly if interpreting the text on the same input ends in a fault of that kind at that
index. So comparing the two on the text alone confuses no two faults. -/
theorem message_identifies_fault :
    (∀ f g : Fault, f.kind ∈ Fault.Kind.concrete → g.kind ∈ Fault.Kind.concrete →
      (f.message = g.message ↔ f.kind = g.kind ∧ f.index = g.index)) ∧
    ∀ (source : String) (g : Generator) (input : List UInt8)
      (x : Native.FailedExecution source g input) (hasSink : Bool) (f : Fault),
      f.kind ∈ Fault.Kind.concrete →
        (x.final.stderr = Native.bytesOf (f.message ++ "\n") ↔
          ∃ fuel f' m,
            (interpret fuel source g.config input hasSink).value = ⟨some (.fault f'), m, ()⟩ ∧
              f'.kind = f.kind ∧ f'.index = f.index) := by
  constructor
  · intro f g hf hg
    exact Fault.message_eq_iff hf hg
  · intro source g input x hasSink f hf
    constructor
    · intro hreport
      obtain ⟨fuel, f', m, hinterpret⟩ := x.exists_interpret hasSink
      obtain ⟨hf', hstderr⟩ := x.stderr_of_interpret hinterpret
      have htexts := Native.bytesOf_report_inj.1 (hstderr.symm.trans hreport)
      exact ⟨fuel, f', m, hinterpret, (Fault.message_eq_iff hf' hf).1 htexts⟩
    · rintro ⟨fuel, f', m, hinterpret, hsame⟩
      obtain ⟨hf', hstderr⟩ := x.stderr_of_interpret hinterpret
      rw [hstderr, (Fault.message_eq_iff hf' hf).2 hsame]

/-- The sign of an index shows in the text. The report of a program that runs past the end of a tape
of two cells is the text of that fault, whatever the pointer. -/
theorem message_of_overflow_identifies_it :
    (Fault.edge .pointerOverflow (-2) 0).message ≠ (Fault.edge .pointerOverflow 2 0).message ∧
      ∀ platform : Native.Platform,
        ∃ x : Native.FailedExecution "+[>+]" { config := { length := .number 2 } } [],
          x.platform = platform ∧ ∀ pointer : Int, x.final.stderr =
            Native.bytesOf ((Fault.edge .pointerOverflow 2 pointer).message ++ "\n") := by
  have hconcrete := Fault.kind_edge_mem_concrete .pointerOverflow
  constructor
  · intro h
    have hsame := (message_identifies_fault.1 _ _ (hconcrete _ _) (hconcrete _ _)).1 h
    cases hsame.2
  · intro platform
    let g : Generator := { config := { length := .number 2 } }
    have hparse : (parse "+[>+]").value = .ok .sweep := rfl
    have hcount : Program.sweep.instructionCount < 2 ^ 63 := by decide
    have hlisting := g.generate_eq (flatten_of_nestLogged (parse_value "+[>+]" ▸ hparse)).2.2
    have hassembles :
        (Native.assemble? 0 (listingOf g.config g.annotate Program.sweep.body)).isSome = true :=
      Native.isSome_assemble? rfl (Nat.zero_le _) g.annotate Program.sweep.body
    obtain ⟨image, himage⟩ := Option.isSome_iff_exists.1 hassembles
    obtain ⟨start, hstart, himplements⟩ :=
      Native.exists_implements hparse hcount rfl hlisting himage platform [] false
    obtain ⟨m, hinterpret⟩ : ∃ m, (interpret 8 "+[>+]" g.config [] false).value =
        ⟨some (.fault (.edge .pointerOverflow 2 1)), m, ()⟩ := ⟨_, rfl⟩
    obtain ⟨c, hexits⟩ := himplements.exits_one_iff.2
      ⟨8, _, m, (interpret_eq_fault_iff hparse).1 hinterpret⟩
    let x : Native.FailedExecution "+[>+]" g [] :=
      ⟨_, hparse, hcount, 2, rfl, _, hlisting, 0, image, himage, platform, start, hstart, c, hexits⟩
    refine ⟨x, rfl, ?_⟩
    intro pointer
    exact (message_identifies_fault.2 _ _ _ x false _ (hconcrete 2 pointer)).2
      ⟨8, _, m, hinterpret, rfl, rfl⟩

end TapeLang
