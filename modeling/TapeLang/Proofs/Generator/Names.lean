import TapeLang.Proofs.Generator.Scheme
import TapeLang.Proofs.Native.Process

/-!
# The names of a generated listing

The code of a tree defines two names for every loop and no others, and the loops have numbers of
their own. The fixed parts of a listing define no such names. The main statement is
`nodup_definitions`: a generated listing defines no name twice.
-/

set_option autoImplicit false

namespace TapeLang.Native

open Assembly

/-! ## Lines of code -/

/-- Whether a line is an instruction. -/
def isOperation : Line → Bool
  | .code _ => true
  | _ => false

/-- Whether a line gives no name a value and holds no data. -/
def isCode : Line → Bool
  | .blank | .label _ | .anonymous | .comment _ | .code _ => true
  | .format | .codeSegment | .dataSegment | .entry _ | .define _ _ | .bytes _ _
  | .reserve _ _ => false

theorem isCode_of_isOperation {line : Line} (h : isOperation line = true) : isCode line = true := by
  cases line with
  | code o => rfl
  | _ => cases h

/-- Code adds nothing to a layout. -/
theorem foldlM_place?_of_isCode (origin : Nat) (l : Layout) :
    ∀ {lines : Listing}, lines.all isCode = true →
      lines.foldlM (Layout.place? origin) l = some l := by
  intro lines
  induction lines with
  | nil => exact fun _ => rfl
  | cons line lines ih =>
      intro h
      rw [List.all_cons, Bool.and_eq_true] at h
      have hline : l.place? origin line = some l := by
        cases line with
        | blank | label n | anonymous | comment note | code o => rfl
        | _ => cases h.1
      rw [List.foldlM_cons, hline]
      exact ih h.2

theorem all_isOperation_checked (config : TapeConfig) (i : Instruction) (o : Operation) (j : Jump)
    (e : Edge) : (checked config i (.code o) j e).all isOperation = true := by
  unfold checked
  split <;> rfl

/-- The lines of an instruction are instructions of the processor. -/
theorem all_isOperation_lines (config : TapeConfig) (i : Instruction) :
    (i.lines config).all isOperation = true := by
  have hright : (moveRightLines config).all isOperation = true := by
    unfold moveRightLines
    split
    · rfl
    · split <;> rfl
  have hleft : (moveLeftLines config).all isOperation = true := by
    unfold moveLeftLines
    split
    · rfl
    · split <;> rfl
  have happend : ∀ {a b : Listing}, a.all isOperation = true → b.all isOperation = true →
      (a ++ b).all isOperation = true := by
    intro a b ha hb
    rw [List.all_append, ha, hb]
    rfl
  obtain ⟨command, index, offset⟩ := i
  cases command with
  | moveLeft => exact happend (all_isOperation_checked ..) hleft
  | moveRight => exact happend (all_isOperation_checked ..) hright
  | increment => exact happend (all_isOperation_checked ..) rfl
  | decrement => exact happend (all_isOperation_checked ..) rfl
  | output | input | loopOpen | loopClose => rfl

/-- The code of a tree is code. -/
theorem all_isCode_code (config : TapeConfig) (annotate : Bool) (n : Nat) (b : Body) :
    (b.code config annotate n).all isCode = true := by
  apply Body.all_code annotate (fun _ => rfl) _ fun _ => rfl
  intro i
  rw [List.all_eq_true]
  intro line hline
  exact isCode_of_isOperation (List.all_eq_true.1 (all_isOperation_lines config i) line hline)

/-! ## Names -/

theorem definitions_append (a b : Listing) :
    definitions (a ++ b) = definitions a ++ definitions b :=
  List.filterMap_append

theorem definitions_of_isOperation :
    ∀ {lines : Listing}, lines.all isOperation = true → definitions lines = [] := by
  intro lines h
  rw [definitions, List.filterMap_eq_nil_iff]
  intro line hline
  have hop := List.all_eq_true.1 h line hline
  cases line with
  | code o => rfl
  | _ => cases hop

theorem definitions_remark (annotate : Bool) (note : Comment) :
    definitions (remark annotate note) = [] := by
  cases annotate <;> rfl

/-- The names that the code of a tree defines: two for every loop. -/
def loopNames (n : Nat) : Body → List Name
  | .nil => []
  | .instr _ rest => loopNames n rest
  | .loop inner _ _ rest =>
      .loop n :: (loopNames (n + 1) inner ++ .loopEnd n :: loopNames (n + (inner.loops + 1)) rest)

theorem definitions_code (config : TapeConfig) (annotate : Bool) (n : Nat) (b : Body) :
    definitions (b.code config annotate n) = loopNames n b := by
  induction b generalizing n with
  | nil => rfl
  | instr i rest ih =>
      rw [Body.code, definitions_append, definitions_append, definitions_remark,
        definitions_of_isOperation (all_isOperation_lines config i), ih]
      rfl
  | loop inner openIndex closeIndex rest ihInner ihRest =>
      rw [Body.code, definitions_append, definitions_append, definitions_append, definitions_append,
        definitions_remark, ihInner, ihRest]
      rfl

/-- The names of loops carry the numbers from `n` on, one for every loop. -/
theorem mem_loopNames {name : Name} {b : Body} {n : Nat} (h : name ∈ loopNames n b) :
    ∃ k, n ≤ k ∧ k < n + b.loops ∧ (name = .loop k ∨ name = .loopEnd k) := by
  induction b generalizing n with
  | nil => cases h
  | instr i rest ih => exact ih h
  | loop inner openIndex closeIndex rest ihInner ihRest =>
      simp only [loopNames, List.mem_cons, List.mem_append] at h
      rw [Body.loops]
      rcases h with rfl | h | rfl | h
      · exact ⟨n, by omega, by omega, .inl rfl⟩
      · obtain ⟨k, hlow, hhigh, hname⟩ := ihInner h
        exact ⟨k, by omega, by omega, hname⟩
      · exact ⟨n, by omega, by omega, .inr rfl⟩
      · obtain ⟨k, hlow, hhigh, hname⟩ := ihRest h
        exact ⟨k, by omega, by omega, hname⟩

theorem ne_of_mem_loopNames {name : Name} {b : Body} {n k : Nat} (h : name ∈ loopNames n b)
    (hk : k < n) : name ≠ .loop k ∧ name ≠ .loopEnd k := by
  obtain ⟨l, hlow, -, hname⟩ := mem_loopNames h
  constructor
  · rintro rfl
    rcases hname with hname | hname
    · cases hname
      omega
    · cases hname
  · rintro rfl
    rcases hname with hname | hname
    · cases hname
    · cases hname
      omega

/-- No two loops share a name. -/
theorem nodup_loopNames (n : Nat) (b : Body) : (loopNames n b).Nodup := by
  induction b generalizing n with
  | nil => exact List.nodup_nil
  | instr i rest ih => exact ih n
  | loop inner openIndex closeIndex rest ihInner ihRest =>
      -- a loop's own number is below those of its contents, and theirs are below all later ones
      have hinner : ∀ name ∈ loopNames (n + 1) inner, name ≠ .loop n ∧ name ≠ .loopEnd n :=
        fun name hname => ne_of_mem_loopNames hname (by omega)
      have hrest : ∀ name ∈ loopNames (n + (inner.loops + 1)) rest,
          name ≠ .loop n ∧ name ≠ .loopEnd n :=
        fun name hname => ne_of_mem_loopNames hname (by omega)
      have hapart : ∀ name ∈ loopNames (n + 1) inner,
          name ∉ loopNames (n + (inner.loops + 1)) rest := by
        intro name hname hname'
        obtain ⟨k, -, hhigh, hk⟩ := mem_loopNames hname
        obtain ⟨k', hlow, -, hk'⟩ := mem_loopNames hname'
        rcases hk with rfl | rfl <;> rcases hk' with hk' | hk' <;> cases hk' <;> omega
      rw [loopNames, List.nodup_cons, List.nodup_append, List.nodup_cons]
      refine ⟨?_, ihInner _, ⟨?_, ihRest _⟩, ?_⟩
      · intro hmem
        rcases List.mem_append.1 hmem with hmem | hmem
        · exact (hinner _ hmem).1 rfl
        · rcases List.mem_cons.1 hmem with hmem | hmem
          · cases hmem
          · exact (hrest _ hmem).1 rfl
      · intro hmem
        exact (hrest _ hmem).2 rfl
      · intro name hname name' hname' heq
        subst heq
        rcases List.mem_cons.1 hname' with rfl | hname'
        · exact (hinner _ hname).2 rfl
        · exact hapart name hname hname'

/-- Whether a name is that of a loop. -/
def isLoopName : Name → Bool
  | .loop _ | .loopEnd _ => true
  | _ => false

theorem isLoopName_of_mem {name : Name} {b : Body} {n : Nat} (h : name ∈ loopNames n b) :
    isLoopName name = true := by
  obtain ⟨k, -, -, rfl | rfl⟩ := mem_loopNames h <;> rfl

theorem definitions_trailer_of_wraps {config : TapeConfig} (hw : config.wraps = true) :
    definitions (trailer config) = [.writeCell, .readCell, .tape] := by
  simp only [trailer, faultRoutines, dataSegment, hw, if_true]
  rfl

/-- The fixed parts of a listing define no name twice, and no name of a loop. -/
theorem definitions_fixed (config : TapeConfig) :
    (definitions (header config.length) ++ definitions (trailer config)).Nodup ∧
      ∀ name ∈ definitions (header config.length) ++ definitions (trailer config),
        isLoopName name = false := by
  have hheader : definitions (header config.length) = definitions (header .truth) := rfl
  rw [hheader]
  cases hw : config.wraps with
  | true =>
      rw [definitions_trailer_of_wraps hw]
      decide
  | false =>
      have hending : definitions (trailer config) = [.writeCell, .readCell] ++
          (Edge.all.map .edge ++ [.fault] ++
            (Edge.all.flatMap fun e => [.edgeMessage e, .edgeMessageLength e]) ++
            [.digits, .tape]) := by
        simp only [trailer, faultRoutines, dataSegment, hw, Bool.false_eq_true, if_false]
        rfl
      rw [hending]
      decide

/-- **A generated listing defines no name twice.** -/
theorem nodup_definitions (config : TapeConfig) (annotate : Bool) (b : Body) :
    (definitions (listingOf config annotate b)).Nodup := by
  obtain ⟨hfixed, hother⟩ := definitions_fixed config
  obtain ⟨hheader, hending, hapart⟩ := List.nodup_append.1 hfixed
  rw [listingOf, definitions_append, definitions_append, definitions_code]
  refine List.nodup_append.2 ⟨hheader, List.nodup_append.2 ⟨nodup_loopNames 0 b, hending, ?_⟩, ?_⟩
  · intro name hname name' hname' heq
    have hloop := isLoopName_of_mem hname
    rw [heq, hother name' (List.mem_append_right _ hname')] at hloop
    cases hloop
  · intro name hname name' hname' heq
    rcases List.mem_append.1 hname' with hname' | hname'
    · have hloop := isLoopName_of_mem hname'
      rw [← heq, hother name (List.mem_append_left _ hname)] at hloop
      cases hloop
    · exact hapart name hname name' hname' heq

/-- A listing for a tape that wraps around has no routine for an edge. -/
theorem edge_not_mem_definitions {config : TapeConfig} (hw : config.wraps = true) (annotate : Bool)
    (b : Body) (e : Edge) : .edge e ∉ definitions (listingOf config annotate b) := by
  have hheader : definitions (header config.length) = definitions (header .truth) := rfl
  rw [listingOf, definitions_append, definitions_append, definitions_code, hheader,
    definitions_trailer_of_wraps hw]
  intro hmem
  rcases List.mem_append.1 hmem with hmem | hmem
  · revert hmem
    cases e <;> decide
  · rcases List.mem_append.1 hmem with hmem | hmem
    · cases isLoopName_of_mem hmem
    · revert hmem
      cases e <;> decide

end TapeLang.Native
