import TapeLang.Proofs.Generator.Closed

/-!
# A generator in use

A generator is used again and again: it is set to another configuration, told to annotate or not,
and asked for listings, and some of the requests fail in the middle of a tree. What it wrote then
stays on its page, with the numbers of the loops it was inside.

None of this reaches a later listing. A listing depends on what the generator is set to and on
nothing else (`Generator.generate_eq_fresh`), so every listing of every history is closed
(`every_listing_is_closed`).
-/

set_option autoImplicit false

namespace TapeLang

open Assembly

namespace Generator

/-- One use of a generator. -/
inductive Use where
  | configure (config : TapeConfig)
  | annotate (wanted : Bool)
  | generate (p : Program)

/-- The configuration that a use sets, if it does. -/
def Use.config? : Use → Option TapeConfig
  | configure config => some config
  | annotate _ | generate _ => none

/-- Whether annotations are wanted from then on, if a use says so. -/
def Use.annotate? : Use → Option Bool
  | annotate wanted => some wanted
  | configure _ | generate _ => none

/-- The generator after one use; whether a listing came out does not matter. -/
def afterUse (g : Generator) : Use → Generator
  | .configure config => { g with config }
  | .annotate wanted => { g with annotate := wanted }
  | .generate p => (g.generate p).1

/-- The generator after a history of uses. -/
def after (g : Generator) (uses : List Use) : Generator :=
  uses.foldl afterUse g

/-- A request leaves what the generator is set to alone. -/
theorem settings_generate (g : Generator) (p : Program) :
    (g.generate p).1.config = g.config ∧ (g.generate p).1.annotate = g.annotate := by
  unfold generate
  obtain ⟨page, stuck⟩ := Page.writeAll g.config g.annotate p.body.visits {}
  cases stuck <;> exact ⟨rfl, rfl⟩

/-- **A generator is set to what it was set to last.** -/
theorem settings_after (g : Generator) (uses : List Use) :
    (g.after uses).config = (uses.filterMap Use.config?).getLastD g.config ∧
      (g.after uses).annotate = (uses.filterMap Use.annotate?).getLastD g.annotate := by
  induction uses generalizing g with
  | nil => exact ⟨rfl, rfl⟩
  | cons use uses ih =>
      obtain ⟨hconfig, hannotate⟩ := ih (g.afterUse use)
      rw [after, List.foldl_cons]
      rw [after] at hconfig hannotate
      rw [hconfig, hannotate]
      cases use with
      | configure config => exact ⟨(List.getLastD_cons ..).symm, rfl⟩
      | annotate wanted => exact ⟨rfl, (List.getLastD_cons ..).symm⟩
      | generate p =>
          obtain ⟨hconfig, hannotate⟩ := g.settings_generate p
          exact ⟨congrArg _ hconfig, congrArg _ hannotate⟩

/-- **What a generator wrote before leaves no trace in a listing.** -/
theorem generate_eq_fresh (g : Generator) (p : Program) :
    (g.generate p).2 =
      (Generator.generate { config := g.config, annotate := g.annotate } p).2 := by
  unfold generate
  obtain ⟨page, stuck⟩ := Page.writeAll g.config g.annotate p.body.visits {}
  cases stuck <;> rfl

end Generator

/-- **Every listing is closed, whatever the generator did before.** After any history of settings
and requests, failed ones among them, a generator gives what a fresh one with the same settings
gives. If it is a listing, its text defines every symbol once: the labels are the fixed ones and two
for each loop of the program, with the numbers from zero on. It defines every symbol that one of its
instructions refers to, always the tape and its size, and the routines, messages and digits of the
faults exactly if the tape is bounded. -/
theorem every_listing_is_closed (g : Generator) (uses : List Generator.Use) (p : Program) :
    let config := (uses.filterMap Generator.Use.config?).getLastD g.config
    let annotate := (uses.filterMap Generator.Use.annotate?).getLastD g.annotate
    ((g.after uses).generate p).2 = (Generator.generate { config, annotate } p).2 ∧
      ∀ listing, ((g.after uses).generate p).2 = .ok listing →
        ClosedText config.policy p.loopCount listing.text := by
  intro config annotate
  obtain ⟨hconfig, hannotate⟩ := g.settings_after uses
  refine ⟨?_, ?_⟩
  · rw [Generator.generate_eq_fresh, hconfig, hannotate]
  · intro listing hlisting
    have hgenerated := Generator.generate_eq (g.after uses)
      (Generator.delimiterFree_of_generate hlisting)
    rw [hlisting] at hgenerated
    obtain rfl := Except.ok.inj hgenerated
    rw [hconfig, p.loopCount_eq_loops]
    exact closed_text config _ p.body

/-- A request that failed inside a loop, and two loops after it on another tape. -/
theorem listing_after_failed_request :
    let stray : Program := { body := .loop (.instr ⟨.loopClose, 1, 1⟩ .nil) 0 2 .nil }
    let nested : Program := { body := .loop (.loop .nil 1 2 .nil) 0 3 .nil }
    let uses : List Generator.Use := [.generate stray, .configure { policy := .wrapping }]
    (Generator.generate {} stray).2 = .error ⟨.loopClose, 1, 1⟩ ∧
      ∃ listing, ((Generator.after {} uses).generate nested).2 = .ok listing ∧
        ClosedText .wrapping 2 listing.text := by
  intro stray nested uses
  have hstray : (Generator.generate {} stray).2 = .error ⟨.loopClose, 1, 1⟩ := by
    unfold Generator.generate
    rw [Body.visits_eq_tour]
    rfl
  have hfree : nested.body.DelimiterFree := by decide
  have hlisting := Generator.generate_eq (Generator.after {} uses) hfree
  have hloops : nested.loopCount = 2 := nested.loopCount_eq_loops
  have hclosed := (every_listing_is_closed {} uses nested).2 _ hlisting
  rw [hloops] at hclosed
  exact ⟨hstray, _, hlisting, hclosed⟩

end TapeLang
