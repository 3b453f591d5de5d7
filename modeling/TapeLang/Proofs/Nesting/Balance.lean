import Mathlib.Data.List.Infix
import TapeLang.Proofs.Nesting.Flatten

/-!
# Balanced sequences

A sequence of instructions is balanced if it closes no loop before opening it and closes every loop
that it opens. Exactly these sequences are programs, and every other sequence is refused for the
delimiter that is to blame (`nestLogged_classifies`): the close that ends the shortest prefix with
too many closes or, if there is none, the last open that has no partner.

The counts below and the reading agree because of `Nesting.readAll_of_bounded`: a sequence that
never closes more than what is open is read to its end, and what was open below is left alone.
-/

set_option autoImplicit false

namespace TapeLang

/-! ## Counting delimiters -/

/-- The number of opening delimiters. -/
def opens (xs : List Instruction) : Nat :=
  xs.countP fun i => i.command == .loopOpen

/-- The number of closing delimiters. -/
def closes (xs : List Instruction) : Nat :=
  xs.countP fun i => i.command == .loopClose

/-- Some prefix closes more loops than it opens. -/
def Overclosed (xs : List Instruction) : Prop :=
  ∃ ys, ys <+: xs ∧ opens ys < closes ys

/-- Every prefix opens at least as many loops as it closes, and the whole opens and closes equally
many. -/
def Balanced (xs : List Instruction) : Prop :=
  (∀ ys, ys <+: xs → closes ys ≤ opens ys) ∧ opens xs = closes xs

instance (xs : List Instruction) : Decidable (Overclosed xs) :=
  decidable_of_iff (∃ ys ∈ xs.inits, opens ys < closes ys) (by simp [Overclosed])

instance (xs : List Instruction) : Decidable (Balanced xs) :=
  decidable_of_iff ((∀ ys ∈ xs.inits, closes ys ≤ opens ys) ∧ opens xs = closes xs)
    (by simp [Balanced])

@[simp] theorem opens_nil : opens [] = 0 := rfl

@[simp] theorem closes_nil : closes [] = 0 := rfl

@[simp] theorem opens_append (xs ys : List Instruction) :
    opens (xs ++ ys) = opens xs + opens ys := by
  simp [opens]

@[simp] theorem closes_append (xs ys : List Instruction) :
    closes (xs ++ ys) = closes xs + closes ys := by
  simp [closes]

/-- What a delimiter or a primitive adds to the two counts. -/
theorem counts_cons (i : Instruction) (xs : List Instruction) :
    (i.command = .loopOpen ∧ opens (i :: xs) = opens xs + 1 ∧ closes (i :: xs) = closes xs) ∨
    (i.command = .loopClose ∧ opens (i :: xs) = opens xs ∧ closes (i :: xs) = closes xs + 1) ∨
    (i.command.isDelimiter = false ∧ opens (i :: xs) = opens xs ∧
      closes (i :: xs) = closes xs) := by
  rcases i with ⟨command, index, offset⟩
  cases command with
  | loopOpen => exact .inl (by simp [opens, closes])
  | loopClose => exact .inr (.inl (by simp [opens, closes]))
  | moveLeft | moveRight | increment | decrement | output | input =>
      exact .inr (.inr (by simp [opens, closes, Command.isDelimiter]))

/-! ## Prefixes -/

/-- A prefix of a concatenation ends in the first part or in the second. -/
theorem prefix_split {xs ys ps : List Instruction} (h : ps <+: xs ++ ys) :
    ps <+: xs ∨ ∃ qs, ps = xs ++ qs ∧ qs <+: ys := by
  obtain ⟨tail, htail⟩ := h
  rcases List.append_eq_append_iff.1 htail with ⟨qs, rfl, -⟩ | ⟨qs, rfl, rfl⟩
  · exact .inl (List.prefix_append ps qs)
  · exact .inr ⟨qs, rfl, List.prefix_append qs tail⟩

theorem not_overclosed_iff {xs : List Instruction} :
    ¬ Overclosed xs ↔ ∀ ys, ys <+: xs → closes ys ≤ opens ys := by
  simp [Overclosed]

theorem Overclosed.append_right {xs : List Instruction} (h : Overclosed xs)
    (ys : List Instruction) : Overclosed (xs ++ ys) := by
  obtain ⟨ps, hps, hlt⟩ := h
  exact ⟨ps, hps.trans (List.prefix_append xs ys), hlt⟩

theorem Balanced.not_overclosed {xs : List Instruction} (h : Balanced xs) : ¬ Overclosed xs :=
  not_overclosed_iff.2 h.1

theorem Balanced.append {xs ys : List Instruction} (hx : Balanced xs) (hy : Balanced ys) :
    Balanced (xs ++ ys) := by
  refine ⟨?_, by simp [hx.2, hy.2]⟩
  intro ps hps
  rcases prefix_split hps with hps | ⟨qs, rfl, hqs⟩
  · exact hx.1 ps hps
  · have hqs' := hy.1 qs hqs
    have hx' := hx.2
    simp only [opens_append, closes_append]
    omega

/-- A balanced sequence between an open and a close is balanced. -/
theorem Balanced.wrap {inner : List Instruction} (h : Balanced inner) {o c : Instruction}
    (ho : o.command = .loopOpen) (hc : c.command = .loopClose) :
    Balanced (o :: (inner ++ [c])) := by
  have hopen (xs : List Instruction) : opens (o :: xs) = opens xs + 1 ∧
      closes (o :: xs) = closes xs := by simp [opens, closes, ho]
  have hclose : opens [c] = 0 ∧ closes [c] = 1 := by simp [opens, closes, hc]
  have htotal := h.2
  refine ⟨?_, by rw [(hopen _).1, (hopen _).2, opens_append, closes_append]; omega⟩
  intro ps hps
  rcases List.prefix_cons_iff.1 hps with rfl | ⟨qs, rfl, hqs⟩
  · simp
  · rw [(hopen qs).1, (hopen qs).2]
    rcases List.prefix_concat_iff.1 hqs with rfl | hqs
    · rw [opens_append, closes_append]
      omega
    · have := h.1 qs hqs
      omega

/-- A primitive alone is balanced. -/
theorem balanced_primitive {i : Instruction} (hi : i.command.isDelimiter = false) :
    Balanced [i] := by
  rcases counts_cons i [] with ⟨hc, -⟩ | ⟨hc, -⟩ | ⟨-, ho, hc⟩
  · simp [hc, Command.isDelimiter] at hi
  · simp [hc, Command.isDelimiter] at hi
  · refine ⟨?_, by rw [ho, hc]; rfl⟩
    intro ps hps
    rcases List.prefix_cons_iff.1 hps with rfl | ⟨qs, rfl, hqs⟩
    · simp
    · rw [List.prefix_nil.1 hqs, ho, hc]
      simp

/-! ## Delimiters without a partner -/

/-- The shortest prefix that closes more loops than it opens. -/
structure ShortestOverclosed (xs ps : List Instruction) : Prop where
  isPrefix : ps <+: xs
  excess : opens ps < closes ps
  shortest : ∀ qs, qs <+: xs → opens qs < closes qs → ps.length ≤ qs.length

/-- The open in front of `after` has a partner there: a close with a balanced sequence before
it. -/
def Paired (after : List Instruction) : Prop :=
  ∃ inner c rest, after = inner ++ c :: rest ∧ c.command = .loopClose ∧ Balanced inner

/-- An overclosed sequence is fine up to a close that has nothing to close. -/
theorem Overclosed.exists_first {xs : List Instruction} (h : Overclosed xs) :
    ∃ ys c zs, xs = ys ++ c :: zs ∧ c.command = .loopClose ∧ Balanced ys := by
  induction xs using List.reverseRecOn with
  | nil =>
      obtain ⟨ps, hps, hlt⟩ := h
      rw [List.prefix_nil.1 hps] at hlt
      simp at hlt
  | append_singleton xs c ih =>
      by_cases hxs : Overclosed xs
      · obtain ⟨ys, d, zs, rfl, hd, hys⟩ := ih hxs
        exact ⟨ys, d, zs ++ [c], by simp, hd, hys⟩
      · -- only the whole can be in excess, so its last instruction is the close to blame
        have hxs' := not_overclosed_iff.1 hxs
        obtain ⟨ps, hps, hlt⟩ := h
        rcases List.prefix_concat_iff.1 hps with rfl | hps
        · have hle := hxs' xs (List.prefix_refl xs)
          rw [opens_append, closes_append] at hlt
          rcases counts_cons c [] with ⟨-, ho, hc⟩ | ⟨hcc, ho, hc⟩ | ⟨-, ho, hc⟩
          · rw [ho, hc] at hlt
            simp only [opens_nil, closes_nil] at hlt
            omega
          · rw [ho, hc] at hlt
            simp only [opens_nil, closes_nil] at hlt
            exact ⟨xs, c, [], rfl, hcc, hxs', by omega⟩
          · rw [ho, hc] at hlt
            simp only [opens_nil, closes_nil] at hlt
            omega
        · exact absurd (hxs' ps hps) (by omega)

/-- The part up to the first stray close is the shortest overclosed prefix. -/
theorem shortestOverclosed_append {ys : List Instruction} {c : Instruction} (hys : Balanced ys)
    (hc : c.command = .loopClose) (zs : List Instruction) :
    ShortestOverclosed (ys ++ c :: zs) (ys ++ [c]) := by
  have hcount : opens [c] = 0 ∧ closes [c] = 1 := by simp [opens, closes, hc]
  have htotal := hys.2
  refine ⟨⟨zs, by simp⟩, by rw [opens_append, closes_append]; omega, ?_⟩
  intro qs hqs hlt
  rcases prefix_split hqs with hqs | ⟨rs, rfl, hrs⟩
  · exact absurd (hys.1 qs hqs) (by omega)
  · cases rs with
    | nil =>
        simp only [List.append_nil] at hlt
        omega
    | cons r rs => simp

/-- There is only one shortest prefix. -/
theorem ShortestOverclosed.unique {xs ps qs : List Instruction} (hp : ShortestOverclosed xs ps)
    (hq : ShortestOverclosed xs qs) : ps = qs := by
  have hle := hp.shortest qs hq.isPrefix hq.excess
  have hge := hq.shortest ps hp.isPrefix hp.excess
  have hpq : ps <+: qs := List.prefix_of_prefix_length_le hp.isPrefix hq.isPrefix hle
  exact hpq.eq_of_length (by omega)

/-- An open has a partner exactly if what follows it closes too much. -/
theorem paired_iff_overclosed {after : List Instruction} : Paired after ↔ Overclosed after := by
  constructor
  · rintro ⟨inner, c, rest, rfl, hc, hinner⟩
    have h := shortestOverclosed_append hinner hc rest
    exact ⟨_, h.isPrefix, h.excess⟩
  · exact Overclosed.exists_first

/-- An open loop of a sequence that has more opens than closes, with a balanced rest behind it. -/
theorem exists_innermost {xs : List Instruction} (h : ¬ Overclosed xs)
    (hlt : closes xs < opens xs) :
    ∃ before o after, xs = before ++ o :: after ∧ o.command = .loopOpen ∧ Balanced after := by
  -- by induction on the length: a close at the end makes us look further to the left
  induction hn : xs.length using Nat.strongRecOn generalizing xs with
  | ind n ih =>
      subst hn
      rcases List.eq_nil_or_concat xs with rfl | ⟨ys, x, rfl⟩
      · simp at hlt
      · rw [List.concat_eq_append] at h hlt ih ⊢
        have hys : ¬ Overclosed ys := fun hys => h (hys.append_right [x])
        rw [opens_append, closes_append] at hlt
        rcases counts_cons x [] with ⟨hx, ho, hc⟩ | ⟨hx, ho, hc⟩ | ⟨hx, ho, hc⟩
        · exact ⟨ys, x, [], rfl, hx, by simp [Balanced]⟩
        · rw [ho, hc] at hlt
          simp only [opens_nil, closes_nil] at hlt
          obtain ⟨before, o, after, rfl, hopen, hafter⟩ := ih _ (by simp) hys (by omega) rfl
          -- `x` closes `o`, so the loop sought is the innermost one of `before`
          have hbefore : ¬ Overclosed before := fun hb => hys (hb.append_right _)
          have hcounts : closes before < opens before := by
            have := hafter.2
            have hopens : opens (o :: after) = opens after + 1 := by simp [opens, hopen]
            have hcloses : closes (o :: after) = closes after := by simp [closes, hopen]
            rw [opens_append, closes_append] at hlt
            omega
          obtain ⟨before', o', after', rfl, hopen', hafter'⟩ :=
            ih _ (by simp) hbefore hcounts rfl
          refine ⟨before', o', after' ++ o :: (after ++ [x]), by simp, hopen', ?_⟩
          exact hafter'.append (hafter.wrap hopen hx)
        · rw [ho, hc] at hlt
          simp only [opens_nil, closes_nil] at hlt
          obtain ⟨before, o, after, rfl, hopen, hafter⟩ := ih _ (by simp) hys (by omega) rfl
          exact ⟨before, o, after ++ [x], by simp, hopen, hafter.append (balanced_primitive hx)⟩

/-- The last open of a sequence that has no partner: every later open has one. Equivalently, it is
the last open with a balanced sequence behind it. -/
structure LastUnpaired (xs before : List Instruction) (o : Instruction)
    (after : List Instruction) : Prop where
  split : xs = before ++ o :: after
  isOpen : o.command = .loopOpen
  unpaired : ¬ Paired after
  laterPaired : ∀ mid j rest, after = mid ++ j :: rest → j.command = .loopOpen → Paired rest
  balanced : Balanced after
  laterUnbalanced : ∀ mid j rest, after = mid ++ j :: rest → j.command = .loopOpen →
    ¬ Balanced rest

/-- An open with a balanced sequence behind it is the last one that has no partner. -/
theorem lastUnpaired_of_balanced {before after : List Instruction} {o : Instruction}
    (ho : o.command = .loopOpen) (hafter : Balanced after) :
    LastUnpaired (before ++ o :: after) before o after := by
  have hlater : ∀ mid j rest, after = mid ++ j :: rest → j.command = .loopOpen →
      Overclosed rest := by
    rintro mid j rest rfl hj
    have hmid := hafter.1 mid (List.prefix_append mid _)
    have htotal := hafter.2
    have hopens : opens (j :: rest) = opens rest + 1 := by simp [opens, hj]
    have hcloses : closes (j :: rest) = closes rest := by simp [closes, hj]
    rw [opens_append, closes_append] at htotal
    exact ⟨rest, List.prefix_refl rest, by omega⟩
  refine ⟨rfl, ho, ?_, ?_, hafter, ?_⟩
  · rw [paired_iff_overclosed]
    exact hafter.not_overclosed
  · intro mid j rest hsplit hj
    exact paired_iff_overclosed.2 (hlater mid j rest hsplit hj)
  · intro mid j rest hsplit hj hrest
    exact hrest.not_overclosed (hlater mid j rest hsplit hj)

/-! ## Reading -/

namespace Nesting

/-- **A sequence that never closes more than `inner` is read to its end.** The loops `outer` stay
open as they are, and the others are as many as the counts say. -/
theorem readAll_of_bounded {xs : List Instruction} {s : Nesting} (inner outer : List OpenLoop)
    (hs : s.opened = inner ++ outer)
    (hbound : ∀ ys, ys <+: xs → closes ys ≤ opens ys + inner.length) :
    ∃ s' inner', s.readAll xs = .ok s' ∧ s'.opened = inner' ++ outer ∧
      inner'.length + closes xs = inner.length + opens xs := by
  induction xs generalizing s inner with
  | nil => exact ⟨s, inner, rfl, hs, rfl⟩
  | cons i rest ih =>
      have hstep : ∀ ys, ys <+: rest → closes (i :: ys) ≤ opens (i :: ys) + inner.length :=
        fun ys hys => hbound (i :: ys) (List.cons_prefix_cons.2 ⟨rfl, hys⟩)
      rcases counts_cons i rest with ⟨hi, ho, hc⟩ | ⟨hi, ho, hc⟩ | ⟨hi, ho, hc⟩
      · have hread : s.read i =
            .ok { current := [], opened := (⟨i.index, s.current⟩ :: inner) ++ outer } := by
          simp [read, hi, hs]
        obtain ⟨s', inner', hall, hopened, hcount⟩ :=
          ih (s := { current := [], opened := (⟨i.index, s.current⟩ :: inner) ++ outer })
            (⟨i.index, s.current⟩ :: inner) rfl
            (by
              intro ys hys
              have := hstep ys hys
              simp only [opens, closes, List.countP_cons, hi] at this ⊢
              simp only [List.length_cons]
              simp at this
              omega)
        refine ⟨s', inner', (readAll_cons hread).trans hall, hopened, ?_⟩
        simp only [List.length_cons] at hcount
        omega
      · -- the bound leaves something to close
        cases inner with
        | nil =>
            have := hstep [] (List.nil_prefix)
            simp [opens, closes, hi] at this
        | cons o inner =>
            have hread : s.read i =
                .ok { current := .loop (.ofReversed s.current) o.index i.index :: o.before
                      opened := inner ++ outer } := by
              simp [read, hi, hs]
            obtain ⟨s', inner', hall, hopened, hcount⟩ :=
              ih (s := { current := .loop (.ofReversed s.current) o.index i.index :: o.before
                         opened := inner ++ outer }) inner rfl
                (by
                  intro ys hys
                  have := hstep ys hys
                  simp only [opens, closes, List.countP_cons, hi, List.length_cons] at this ⊢
                  simp at this
                  omega)
            refine ⟨s', inner', (readAll_cons hread).trans hall, hopened, ?_⟩
            simp only [List.length_cons]
            omega
      · obtain ⟨s', inner', hall, hopened, hcount⟩ :=
          ih (s := { s with current := .instr i :: s.current }) inner hs
            (by
              intro ys hys
              have := hstep ys hys
              rcases counts_cons i ys with ⟨hi', -⟩ | ⟨hi', -⟩ | ⟨-, ho', hc'⟩
              · simp [hi', Command.isDelimiter] at hi
              · simp [hi', Command.isDelimiter] at hi
              · omega)
        refine ⟨s', inner', (readAll_cons (s.read_primitive hi)).trans hall, hopened, ?_⟩
        omega

/-- A sequence that is not overclosed is read to its end. -/
theorem readAll_of_not_overclosed {xs : List Instruction} (h : ¬ Overclosed xs) :
    ∃ s, ({} : Nesting).readAll xs = .ok s ∧ s.opened.length + closes xs = opens xs := by
  obtain ⟨s, inner, hread, hopened, hcount⟩ :=
    readAll_of_bounded (s := {}) [] [] rfl (by simpa using not_overclosed_iff.1 h)
  rw [List.append_nil] at hopened
  exact ⟨s, hread, by rw [hopened]; simpa using hcount⟩

/-- A balanced sequence leaves the open loops as they are. -/
theorem readAll_of_balanced {xs : List Instruction} (h : Balanced xs) (s : Nesting) :
    ∃ s', s.readAll xs = .ok s' ∧ s'.opened = s.opened := by
  obtain ⟨s', inner, hread, hopened, hcount⟩ :=
    readAll_of_bounded (s := s) [] s.opened rfl (by simpa using h.1)
  have hlength : inner.length = 0 := by
    have := h.2
    simp only [List.length_nil] at hcount
    omega
  rw [List.eq_nil_of_length_eq_zero hlength, List.nil_append] at hopened
  exact ⟨s', hread, hopened⟩

end Nesting

/-! ## The three outcomes -/

theorem nestLogged_of_balanced {xs : List Instruction} (h : Balanced xs) :
    ∃ p, (nestLogged xs).value = .ok p := by
  obtain ⟨s, hread, hopened⟩ := Nesting.readAll_of_balanced h {}
  exact ⟨_, nestLogged_eq_ok_iff.2 ⟨s, hread, hopened, rfl⟩⟩

/-- The close that has nothing to close is reported, whatever follows. -/
theorem nestLogged_of_strayClose {ys zs : List Instruction} {c : Instruction} (hys : Balanced ys)
    (hc : c.command = .loopClose) :
    (nestLogged (ys ++ c :: zs)).value = .error (.unmatchedClose c.index) := by
  obtain ⟨s, hread, hopened⟩ := Nesting.readAll_of_balanced hys {}
  have hall : ({} : Nesting).readAll (ys ++ c :: zs) = .error (.strayClose c.index) := by
    rw [Nesting.readAll_append _ hread, Nesting.readAll, Nesting.read, hc, hopened]
  simp [nestLogged_value, Program.ofInstructions, hall, Except.mapError, Imbalance.fault]

/-- The open before a balanced rest is reported, if no close is. -/
theorem nestLogged_of_leftOpen {before after : List Instruction} {o : Instruction}
    (hbefore : ¬ Overclosed before) (ho : o.command = .loopOpen) (hafter : Balanced after) :
    (nestLogged (before ++ o :: after)).value = .error (.unmatchedOpen o.index) := by
  obtain ⟨s, hread, -⟩ := Nesting.readAll_of_not_overclosed hbefore
  have hopen : s.read o = .ok { current := [], opened := ⟨o.index, s.current⟩ :: s.opened } := by
    simp [Nesting.read, ho]
  obtain ⟨s', hread', hopened'⟩ := Nesting.readAll_of_balanced hafter
    { current := [], opened := ⟨o.index, s.current⟩ :: s.opened }
  have hall : ({} : Nesting).readAll (before ++ o :: after) = .ok s' := by
    rw [Nesting.readAll_append _ hread, Nesting.readAll_cons hopen, hread']
  simp [nestLogged_value, Program.ofInstructions, hall, Nesting.finish, hopened', Except.map,
    Except.mapError, Imbalance.fault]

/-- Every sequence is balanced, overclosed, or leaves a loop open. -/
theorem balanced_or_overclosed_or_leftOpen (xs : List Instruction) :
    Balanced xs ∨ Overclosed xs ∨ (¬ Overclosed xs ∧ closes xs < opens xs) := by
  by_cases hover : Overclosed xs
  · exact .inr (.inl hover)
  · have hinit := not_overclosed_iff.1 hover
    have hle := hinit xs (List.prefix_refl xs)
    rcases Nat.lt_or_eq_of_le hle with hlt | heq
    · exact .inr (.inr ⟨hover, hlt⟩)
    · exact .inl ⟨hinit, heq.symm⟩

theorem nestLogged_of_overclosed {xs : List Instruction} (h : Overclosed xs) :
    ∃ ps c, ShortestOverclosed xs (ps ++ [c]) ∧
      (nestLogged xs).value = .error (.unmatchedClose c.index) := by
  obtain ⟨ys, c, zs, rfl, hc, hys⟩ := h.exists_first
  exact ⟨ys, c, shortestOverclosed_append hys hc zs, nestLogged_of_strayClose hys hc⟩

theorem nestLogged_of_more_opens {xs : List Instruction} (h : ¬ Overclosed xs)
    (hlt : closes xs < opens xs) :
    ∃ before o after, LastUnpaired xs before o after ∧
      (nestLogged xs).value = .error (.unmatchedOpen o.index) := by
  obtain ⟨before, o, after, rfl, ho, hafter⟩ := exists_innermost h hlt
  exact ⟨before, o, after, lastUnpaired_of_balanced ho hafter,
    nestLogged_of_leftOpen (fun hb => h (hb.append_right _)) ho hafter⟩

theorem ShortestOverclosed.overclosed {xs ps : List Instruction} (h : ShortestOverclosed xs ps) :
    Overclosed xs :=
  ⟨ps, h.isPrefix, h.excess⟩

/-- An open without a partner outweighs the closes, unless some prefix closes too much. -/
theorem LastUnpaired.more_opens {xs before after : List Instruction} {o : Instruction}
    (h : LastUnpaired xs before o after) (hxs : ¬ Overclosed xs) : closes xs < opens xs := by
  obtain ⟨rfl, ho, -, -, hafter, -⟩ := h
  have hbefore := not_overclosed_iff.1 hxs before (List.prefix_append before _)
  have htotal := hafter.2
  have hopens : opens (o :: after) = opens after + 1 := by simp [opens, ho]
  have hcloses : closes (o :: after) = closes after := by simp [closes, ho]
  rw [opens_append, closes_append]
  omega

/-- **Exactly the balanced sequences are programs, and the delimiter to blame is reported.**
The reading of a sequence succeeds iff the sequence is balanced. It fails on a close iff some prefix
closes too much, and reports the last instruction of the shortest such prefix. It fails on an open
iff there is no such prefix and more loops are opened than closed, and reports the last open that
has no partner. Exactly one of the three happens. -/
theorem nestLogged_classifies (xs : List Instruction) :
    ((∃ p, (nestLogged xs).value = .ok p) ↔ Balanced xs) ∧
    ((∃ k, (nestLogged xs).value = .error (.unmatchedClose k)) ↔ Overclosed xs) ∧
    (∀ k, (nestLogged xs).value = .error (.unmatchedClose k) ↔
      ∃ ps c, ShortestOverclosed xs (ps ++ [c]) ∧ c.index = k) ∧
    ((∃ k, (nestLogged xs).value = .error (.unmatchedOpen k)) ↔
      ¬ Overclosed xs ∧ closes xs < opens xs) ∧
    (∀ k, (nestLogged xs).value = .error (.unmatchedOpen k) ↔
      ¬ Overclosed xs ∧ ∃ before o after, LastUnpaired xs before o after ∧ o.index = k) ∧
    ((∃ p, (nestLogged xs).value = .ok p) ∨
      (∃ k, (nestLogged xs).value = .error (.unmatchedClose k)) ∨
      ∃ k, (nestLogged xs).value = .error (.unmatchedOpen k)) := by
  rcases balanced_or_overclosed_or_leftOpen xs with hbal | hover | ⟨hover, hlt⟩
  · have hnot := hbal.not_overclosed
    have hcount := hbal.2
    obtain ⟨p, hp⟩ := nestLogged_of_balanced hbal
    refine ⟨by simp [hp, hbal], by simp [hp, hnot], fun k => ?_, by simp [hp]; omega,
      fun k => ?_, .inl ⟨p, hp⟩⟩
    · simp only [hp, reduceCtorEq, false_iff]
      rintro ⟨ps, c, hshort, -⟩
      exact hnot hshort.overclosed
    · simp only [hp, reduceCtorEq, false_iff]
      rintro ⟨-, before, o, after, hlast, -⟩
      exact absurd (hlast.more_opens hnot) (by omega)
  · have hnot : ¬ Balanced xs := fun hbal => hbal.not_overclosed hover
    obtain ⟨ps, c, hshort, hc⟩ := nestLogged_of_overclosed hover
    refine ⟨by simp [hc, hnot], by simp [hc, hover], fun k => ?_, by simp [hc, hover],
      fun k => by simp [hc, hover], .inr (.inl ⟨c.index, hc⟩)⟩
    simp only [hc, Except.error.injEq, Fault.unmatchedClose.injEq]
    constructor
    · rintro rfl
      exact ⟨ps, c, hshort, rfl⟩
    · rintro ⟨qs, d, hshort', rfl⟩
      have hcd := List.append_inj_right' (hshort.unique hshort') rfl
      rw [List.singleton_inj.1 hcd]
  · have hnot : ¬ Balanced xs := fun hbal => absurd hbal.2 (by omega)
    obtain ⟨before, o, after, hlast, ho⟩ := nestLogged_of_more_opens hover hlt
    refine ⟨by simp [ho, hnot], by simp [ho, hover], fun k => ?_, by simp [ho, hover, hlt],
      fun k => ?_, .inr (.inr ⟨o.index, ho⟩)⟩
    · simp only [ho, Except.error.injEq, reduceCtorEq, false_iff]
      rintro ⟨ps, c, hshort, -⟩
      exact hover hshort.overclosed
    · constructor
      · intro hk
        rw [ho, Except.error.injEq, Fault.unmatchedOpen.injEq] at hk
        exact ⟨hover, before, o, after, hlast, hk⟩
      · -- any last open without a partner is the one that is reported
        rintro ⟨-, before', o', after', hlast', rfl⟩
        have hbefore : ¬ Overclosed before' := by
          intro hb
          exact hover (hlast'.split ▸ hb.append_right _)
        rw [hlast'.split]
        exact nestLogged_of_leftOpen hbefore hlast'.isOpen hlast'.balanced

end TapeLang
