import TapeLang.Proofs.Generator.Names

/-!
# Generated listings, assembled

The listing of a tree assembles if its tape length is a number. Its data is the tape, with the
messages and the room for an index in front of it if the tape is bounded. `Loaded` is all that the
proofs about the code need to know of the image; `loaded_of_assemble?` says that every image of
such a listing provides it.
-/

set_option autoImplicit false

namespace TapeLang

theorem TapeConfig.cells_lt (config : TapeConfig) : config.length.cells < 2 ^ 31 :=
  Nat.lt_of_le_of_lt config.le_max (by decide)

namespace Native

open Assembly

/-! ## The layout -/

/-- The message of an edge's routine, as it is stored. -/
def messageBytes (e : Edge) : List UInt8 :=
  bytesOf (e.description ++ " at instruction ")

theorem length_messageBytes_lt (e : Edge) : (messageBytes e).length < 64 := by
  cases e <;> decide

/-- The constants of a listing with this many cells. -/
def constants (cells : Nat) : List (Name × Int) :=
  [(.tapeSize, cells), (.exitFault, 1), (.exitSuccess, 0), (.stderr, 2), (.stdout, 1), (.stdin, 0),
    (.sysExit, 60), (.sysWrite, 1), (.sysRead, 0)]

namespace Layout

/-- Put the message of an edge at the end of the data. -/
def message (origin : Nat) (l : Layout) (e : Edge) : Layout :=
  (l.allot origin (.edgeMessage e) (messageBytes e)).define (.edgeMessageLength e)
    (messageBytes e).length

/-- The layout of a generated listing. -/
def ofConfig (origin : Nat) (config : TapeConfig) : Layout :=
  let l : Layout := { symbols := constants config.length.cells }
  let l :=
    if config.wraps then l
    else (Edge.all.foldl (message origin) l).allot origin .digits (List.replicate 21 0)
  l.allot origin .tape (List.replicate config.length.cells 0)

/-- The length of a message is computed where the message ends. -/
theorem foldlM_edgeMessage (origin : Nat) (l : Layout) (e : Edge) :
    (edgeMessage e).foldlM (place? origin) l = some (l.message origin e) := by
  have hlength : ((origin + (l.data ++ messageBytes e).length : Nat) : Int) -
      (origin + l.data.length : Nat) = (messageBytes e).length := by
    rw [List.length_append]
    omega
  simp only [edgeMessage, List.foldlM_cons, List.foldlM_nil, place?, Option.bind_eq_bind,
    Option.bind_some, allot, define, List.lookup_cons_self, Option.pure_def]
  exact congrArg (fun k => some (Layout.define (l.allot origin _ (messageBytes e)) _ k)) hlength

theorem foldlM_edgeMessages (origin : Nat) (edges : List Edge) (l : Layout) :
    (edges.flatMap edgeMessage).foldlM (place? origin) l =
      some (edges.foldl (message origin) l) := by
  induction edges generalizing l with
  | nil => rfl
  | cons e edges ih =>
      rw [List.flatMap_cons, List.foldlM_append, foldlM_edgeMessage, Option.bind_eq_bind,
        Option.bind_some, ih]
      rfl

theorem lookup_tapeSize_messages (origin : Nat) (edges : List Edge) (l : Layout) :
    (edges.foldl (message origin) l).symbols.lookup .tapeSize = l.symbols.lookup .tapeSize := by
  induction edges generalizing l with
  | nil => rfl
  | cons e edges ih =>
      rw [List.foldl_cons, ih]
      rfl

theorem place?_reserve {origin : Nat} {l : Layout} {n : Name} {count : Value} {k : Nat}
    (hk : value? l.symbols count = some (k : Int)) :
    l.place? origin (.reserve n count) = some (l.allot origin n (List.replicate k 0)) := by
  simp [place?, hk]

/-- What the assembler makes of the data of a listing. -/
theorem foldlM_dataSegment {origin : Nat} {config : TapeConfig} :
    (dataSegment config).foldlM (place? origin) { symbols := constants config.length.cells } =
      some (ofConfig origin config) := by
  -- the tape comes last, and its length is a constant that the messages leave alone
  have htape : ∀ {lines : Listing} {l : Layout},
      lines.foldlM (place? origin) { symbols := constants config.length.cells } = some l →
      l.symbols.lookup .tapeSize = some (config.length.cells : Int) →
      ([.blank, .dataSegment] ++ lines ++ [.reserve .tape (.name .tapeSize)] : Listing).foldlM
        (place? origin) { symbols := constants config.length.cells } =
          some (l.allot origin .tape (List.replicate config.length.cells 0)) := by
    intro lines l hlines hsize
    have hvalue : value? l.symbols (.name .tapeSize) = some (config.length.cells : Int) := hsize
    rw [List.append_assoc, List.foldlM_append]
    show (lines ++ [_]).foldlM _ _ = _
    rw [List.foldlM_append, hlines]
    show (place? origin l _).bind some = _
    rw [place?_reserve hvalue]
    rfl
  cases hw : config.wraps with
  | true =>
      simp only [dataSegment, hw, if_true, ofConfig]
      exact htape (l := { symbols := constants config.length.cells }) rfl rfl
  | false =>
      simp only [dataSegment, hw, Bool.false_eq_true, if_false, ofConfig]
      refine htape ?_ ?_
      · rw [List.foldlM_append, foldlM_edgeMessages]
        rfl
      · exact lookup_tapeSize_messages origin Edge.all { symbols := constants config.length.cells }

/-- What the assembler makes of a listing. -/
theorem foldlM_listingOf {origin : Nat} {config : TapeConfig} {cells : Nat}
    (hlength : config.length = .number cells) (annotate : Bool) (b : Body) :
    (listingOf config annotate b).foldlM (place? origin) {} = some (ofConfig origin config) := by
  have hheader : (header config.length).foldlM (place? origin) {} =
      some { symbols := constants config.length.cells } := by
    rw [hlength]
    rfl
  have hroutines : (faultRoutines config).all isCode = true := by
    unfold faultRoutines
    split <;> rfl
  rw [listingOf, trailer, List.foldlM_append, hheader, Option.bind_eq_bind, Option.bind_some,
    List.foldlM_append, foldlM_place?_of_isCode _ _ (all_isCode_code config annotate 0 b),
    Option.bind_eq_bind, Option.bind_some, List.foldlM_append,
    foldlM_place?_of_isCode _ _ (show epilogue.all isCode = true from rfl), Option.bind_eq_bind,
    Option.bind_some, List.foldlM_append, foldlM_place?_of_isCode _ _ hroutines,
    Option.bind_eq_bind, Option.bind_some, foldlM_dataSegment]

end Layout

/-- What assembling a listing gives. -/
theorem assemble?_listingOf {origin : Nat} {config : TapeConfig} {cells : Nat}
    (hlength : config.length = .number cells) (annotate : Bool) (b : Body) :
    assemble? origin (listingOf config annotate b) =
      if origin + (Layout.ofConfig origin config).data.length ≤ 2 ^ 64 then
        some {
          listing := listingOf config annotate b
          symbols := (Layout.ofConfig origin config).symbols
          origin
          data := (Layout.ofConfig origin config).data }
      else none := by
  rw [assemble?, Layout.foldlM_listingOf hlength, Option.bind_eq_bind, Option.bind_some]
  simp only [nodup_definitions, true_and]

/-! ## The image -/

/-- Bytes that lie in the data of an image at an address. -/
def Image.Holds (image : Image) (a : Nat) (bytes : List UInt8) : Prop :=
  ∃ front back, image.data = front ++ (bytes ++ back) ∧ a = image.origin + front.length

/-- What the routines for faults rely on: the messages, and room for the digits of an index. -/
structure Reports (image : Image) (digits base : Nat) : Prop where
  digits_value : image.symbols.lookup .digits = some (digits : Int)
  room : image.Holds digits (List.replicate 21 0)
  digits_le : digits + 21 ≤ base
  message : ∀ e, ∃ a : Nat,
    image.symbols.lookup (.edgeMessage e) = some (a : Int) ∧
      image.symbols.lookup (.edgeMessageLength e) = some ((messageBytes e).length : Int) ∧
        image.Holds a (messageBytes e) ∧ a + (messageBytes e).length ≤ digits

/-- What the code of a program relies on; `base` is the address of the tape. -/
structure Loaded (image : Image) (config : TapeConfig) (base : Nat) : Prop where
  nodup : (definitions image.listing).Nodup
  trailer_suffix : trailer config <:+ image.listing
  constant : ∀ p ∈ constants config.length.cells, image.symbols.lookup p.1 = some p.2
  tape_value : image.symbols.lookup .tape = some (base : Int)
  blank : image.Holds base (List.replicate config.length.cells 0)
  fits : image.origin + image.data.length ≤ 2 ^ 64
  reports : config.wraps = false → ∃ digits, Reports image digits base
  edgeless : config.wraps = true → ∀ e, .label (.edge e) ∉ image.listing

theorem constant_ofConfig (origin : Nat) (config : TapeConfig) :
    ∀ p ∈ constants config.length.cells,
      (Layout.ofConfig origin config).symbols.lookup p.1 = some p.2 := by
  intro p hp
  simp only [constants, List.mem_cons, List.not_mem_nil, or_false] at hp
  cases hw : config.wraps with
  | true =>
      simp only [Layout.ofConfig, hw, if_true]
      rcases hp with rfl | rfl | rfl | rfl | rfl | rfl | rfl | rfl | rfl <;> rfl
  | false =>
      simp only [Layout.ofConfig, hw, Bool.false_eq_true, if_false]
      rcases hp with rfl | rfl | rfl | rfl | rfl | rfl | rfl | rfl | rfl <;> rfl

/-- The messages of all edges. -/
def messages : List UInt8 :=
  messageBytes .pointerUnderflow ++ messageBytes .pointerOverflow ++ messageBytes .cellUnderflow ++
    messageBytes .cellOverflow

theorem data_ofConfig_bounded (origin : Nat) {config : TapeConfig} (hw : config.wraps = false) :
    (Layout.ofConfig origin config).data =
      messages ++ List.replicate 21 0 ++ List.replicate config.length.cells 0 := by
  simp only [Layout.ofConfig, hw, Bool.false_eq_true, if_false]
  rfl

theorem data_ofConfig_wrapping (origin : Nat) {config : TapeConfig} (hw : config.wraps = true) :
    (Layout.ofConfig origin config).data = List.replicate config.length.cells 0 := by
  simp only [Layout.ofConfig, hw, if_true]
  rfl

theorem reports_of_layout {image : Image} {config : TapeConfig} (hw : config.wraps = false)
    (hsymbols : image.symbols = (Layout.ofConfig image.origin config).symbols)
    (hdata : image.data = (Layout.ofConfig image.origin config).data) :
    Reports image (image.origin + messages.length)
      (image.origin + (messages ++ List.replicate 21 0).length) := by
  rw [data_ofConfig_bounded image.origin hw] at hdata
  simp only [Layout.ofConfig, hw, Bool.false_eq_true, if_false] at hsymbols
  refine ⟨?_, ⟨messages, _, hdata.trans (List.append_assoc ..), rfl⟩, ?_, ?_⟩
  · rw [hsymbols]
    rfl
  · rw [List.length_append, List.length_replicate]
    omega
  · intro e
    rw [hsymbols]
    -- each message lies behind those of the edges before it
    simp only [messages, List.append_assoc] at hdata
    cases e with
    | pointerUnderflow =>
        refine ⟨_, rfl, rfl, ⟨[], _, hdata, rfl⟩, ?_⟩
        simp [messages]
    | pointerOverflow =>
        refine ⟨_, rfl, rfl, ⟨messageBytes .pointerUnderflow, _, hdata, rfl⟩, ?_⟩
        simp [messages, Layout.message, Layout.allot, Layout.define]
        omega
    | cellUnderflow =>
        refine ⟨_, rfl, rfl, ⟨messageBytes .pointerUnderflow ++ messageBytes .pointerOverflow, _,
          hdata.trans (List.append_assoc ..).symm, rfl⟩, ?_⟩
        simp [messages, Layout.message, Layout.allot, Layout.define]
        omega
    | cellOverflow =>
        refine ⟨_, rfl, rfl, ⟨messageBytes .pointerUnderflow ++ messageBytes .pointerOverflow ++
          messageBytes .cellUnderflow, List.replicate 21 0 ++ List.replicate config.length.cells 0,
          ?_, rfl⟩, ?_⟩
        · rw [hdata]
          simp only [List.append_assoc]
        · simp [messages, Layout.message, Layout.allot, Layout.define]
          omega

/-- **Every image of a generated listing provides what its code relies on.** -/
theorem loaded_of_assemble? {origin : Nat} {config : TapeConfig} {cells : Nat} {image : Image}
    (hlength : config.length = .number cells) {annotate : Bool} {b : Body}
    (h : assemble? origin (listingOf config annotate b) = some image) :
    image.listing = listingOf config annotate b ∧ ∃ base, Loaded image config base := by
  obtain ⟨hlisting, hsymbols, hdata, hfits⟩ :
      image.listing = listingOf config annotate b ∧
        image.symbols = (Layout.ofConfig image.origin config).symbols ∧
          image.data = (Layout.ofConfig image.origin config).data ∧
            image.origin + image.data.length ≤ 2 ^ 64 := by
    rw [assemble?_listingOf hlength] at h
    split at h
    · rename_i hfits
      obtain rfl := Option.some.inj h
      exact ⟨rfl, rfl, rfl, hfits⟩
    · cases h
  have hnodup : (definitions image.listing).Nodup := by
    rw [hlisting]
    exact nodup_definitions config annotate b
  have hsuffix : trailer config <:+ image.listing := by
    rw [hlisting]
    exact ⟨header config.length ++ b.code config annotate 0, List.append_assoc ..⟩
  have hedgeless : config.wraps = true → ∀ e, .label (.edge e) ∉ image.listing := by
    intro hw e hmem
    rw [hlisting] at hmem
    exact edge_not_mem_definitions hw annotate b e (List.mem_filterMap.2 ⟨_, hmem, rfl⟩)
  have hconstant := constant_ofConfig image.origin config
  rw [← hsymbols] at hconstant
  refine ⟨hlisting, ?_⟩
  cases hw : config.wraps with
  | true =>
      rw [data_ofConfig_wrapping image.origin hw] at hdata
      refine ⟨image.origin, hnodup, hsuffix, hconstant, ?_, ⟨[], [], ?_, rfl⟩, hfits, ?_,
        hedgeless⟩
      · simp only [hsymbols, Layout.ofConfig, hw, if_true]
        rfl
      · rw [hdata, List.append_nil, List.nil_append]
      · intro hw'
        cases hw.symm.trans hw'
  | false =>
      have hreports := reports_of_layout hw hsymbols hdata
      rw [data_ofConfig_bounded image.origin hw] at hdata
      refine ⟨_, hnodup, hsuffix, hconstant, ?_, ⟨messages ++ List.replicate 21 0, [], ?_, rfl⟩,
        hfits, fun _ => ⟨_, hreports⟩, hedgeless⟩
      · simp only [hsymbols, Layout.ofConfig, hw, Bool.false_eq_true, if_false]
        rfl
      · rw [hdata, List.append_nil]

/-- A generated listing assembles at every address that leaves room for its data. -/
theorem isSome_assemble? {origin : Nat} {config : TapeConfig} {cells : Nat}
    (hlength : config.length = .number cells) (horigin : origin ≤ 2 ^ 63) (annotate : Bool)
    (b : Body) : (assemble? origin (listingOf config annotate b)).isSome = true := by
  have hcells := config.cells_lt
  have hmessages : messages.length < 256 := by
    have h₁ := length_messageBytes_lt .pointerUnderflow
    have h₂ := length_messageBytes_lt .pointerOverflow
    have h₃ := length_messageBytes_lt .cellUnderflow
    have h₄ := length_messageBytes_lt .cellOverflow
    simp only [messages, List.length_append]
    omega
  have hfits : origin + (Layout.ofConfig origin config).data.length ≤ 2 ^ 64 := by
    cases hw : config.wraps with
    | true =>
        rw [data_ofConfig_wrapping origin hw, List.length_replicate]
        omega
    | false =>
        rw [data_ofConfig_bounded origin hw, List.length_append, List.length_append,
          List.length_replicate, List.length_replicate]
        omega
  rw [assemble?_listingOf hlength, if_pos hfits]
  rfl

end Native

end TapeLang
