import Mathlib.Data.List.Basic
import Tacit.Repl

/-!
# A session runs what was typed

What a user does in a session falls into turns. A blank line while nothing is collected is passed
over. Lines that are collected are run as one chunk as soon as they are complete, and an interrupt
discards them. What is collected when the input ends is run as it is. So no line is lost other than
blank ones between chunks and those that were discarded, and none is run twice (`chunks_eq_turns`).
-/

namespace Tacit.Repl

/-- Lines as a source, each with its end. -/
def ofLines (ls : List Text) : Text := ls.flatMap (· ++ "\n")

theorem ofLines_append (ls ms : List Text) : ofLines (ls ++ ms) = ofLines ls ++ ofLines ms :=
  List.flatMap_append

theorem ofLines_concat (ls : List Text) (l : Text) :
    ofLines (ls ++ [l]) = ofLines ls ++ l ++ "\n" := by
  simp [ofLines]

theorem isEmpty_ofLines (ls : List Text) : (ofLines ls).isEmpty = ls.isEmpty := by
  have hend : Text.ofString "\n" ≠ [] := nofun
  rcases ls with _ | ⟨l, ls⟩
  · rfl
  · simp [ofLines, hend]

/-- Lines that a session starts to collect: the first of them is not blank. -/
def Starts (ls : List Text) : Prop := ∀ l ∈ ls.head?, (Text.trimmed l).isEmpty = false

/-- Lines that are collected and wait for more: they are complete at none of their ends. -/
structure Waits (ls : List Text) : Prop where
  starts : Starts ls
  incomplete : ∀ ms, ms ≠ [] → ms <+: ls → isComplete (ofLines ms) = false

/-- Lines that are collected up to the first of their ends at which they are complete. -/
structure Completes (ls : List Text) : Prop where
  starts : Starts ls
  nonempty : ls ≠ []
  complete : isComplete (ofLines ls) = true
  shorter : ∀ ms, ms ≠ [] → ms <+: ls → ms ≠ ls → isComplete (ofLines ms) = false

/-- What a user does until nothing is collected any more. -/
inductive Turn where
  | blank (l : Text)
  | run (ls : List Text)
  | dropped (ls : List Text)

namespace Turn

/-- What the user does. -/
def inputs : Turn → List Input
  | blank l => [.line l]
  | run ls => ls.map .line
  | dropped ls => ls.map .line ++ [.interrupt]

/-- The lines that are run, as one chunk. -/
def kept : Turn → List Text
  | run ls => ls
  | blank _ | dropped _ => []

/-- The chunks that are run. -/
def chunks : Turn → List Text
  | run ls => [ofLines ls]
  | blank _ | dropped _ => []

/-- Whether a session that has collected nothing takes the turn. -/
def Happens : Turn → Prop
  | blank l => (Text.trimmed l).isEmpty = true
  | run ls => Completes ls
  | dropped ls => Waits ls

theorem flatten_chunks (t : Turn) : t.chunks.flatten = ofLines t.kept := by
  cases t <;> simp [chunks, kept, ofLines]

end Turn

theorem waits_nil : Waits [] where
  starts := nofun
  incomplete _ hms h := absurd (List.prefix_nil.1 h) hms

section Line

variable {ls : List Text} {l : Text}

theorem Waits.starts_concat (h : Waits ls)
    (hl : (ls.isEmpty && (Text.trimmed l).isEmpty) = false) : Starts (ls ++ [l]) := by
  rcases ls with _ | ⟨k, ls⟩
  · rintro _ ⟨⟩
    simpa using hl
  · exact h.starts

theorem Waits.concat (h : Waits ls) (hl : (ls.isEmpty && (Text.trimmed l).isEmpty) = false)
    (hc : isComplete (ofLines (ls ++ [l])) = false) : Waits (ls ++ [l]) where
  starts := h.starts_concat hl
  incomplete ms hms hpre := by
    rcases List.prefix_concat_iff.1 hpre with rfl | hpre
    · exact hc
    · exact h.incomplete ms hms hpre

/-- A line that completes what waits ends a chunk. -/
theorem Waits.completes (h : Waits ls) (hl : (ls.isEmpty && (Text.trimmed l).isEmpty) = false)
    (hc : isComplete (ofLines (ls ++ [l])) = true) : Completes (ls ++ [l]) where
  starts := h.starts_concat hl
  nonempty := List.append_ne_nil_of_right_ne_nil _ (List.cons_ne_nil _ _)
  complete := hc
  shorter ms hms hpre hne := by
    rcases List.prefix_concat_iff.1 hpre with rfl | hpre
    · exact absurd rfl hne
    · exact h.incomplete ms hms hpre

end Line

/-- The chunk that is run when the input ends. -/
def atEnd (ls : List Text) : List Text := if ls.isEmpty then [] else [ofLines ls]

/-- A session runs some chunks when it has collected some lines and the user goes on. The induction
is on what is still to come; a blank line counts for nothing if nothing is collected. -/
theorem chunks_of_waits : ∀ (inputs : List Input) (ls : List Text), Waits ls →
    ∃ (ts : List Turn) (ms : List Text),
      ls.map .line ++ inputs = ts.flatMap Turn.inputs ++ ms.map .line ∧
      (∀ t ∈ ts, t.Happens) ∧ Waits ms ∧
      chunks (ofLines ls) inputs = ts.flatMap Turn.chunks ++ atEnd ms
  | [], ls, h => ⟨[], ls, by simp, by simp, h, by simp [chunks, atEnd, isEmpty_ofLines]⟩
  | .interrupt :: rest, ls, h => by
    obtain ⟨ts, ms, hin, hts, hms, hc⟩ := chunks_of_waits rest [] waits_nil
    refine ⟨.dropped ls :: ts, ms, ?_, List.forall_mem_cons.2 ⟨h, hts⟩, hms, hc⟩
    simpa [Turn.inputs] using hin
  | .line l :: rest, ls, h => by
    have hlines : ls.map Input.line ++ .line l :: rest = (ls ++ [l]).map .line ++ rest := by simp
    simp only [chunks, isEmpty_ofLines, ← ofLines_concat]
    split_ifs with hl hcomplete
    · rw [Bool.and_eq_true, List.isEmpty_iff] at hl
      obtain ⟨ts, ms, hin, hts, hms, hc⟩ := chunks_of_waits rest [] waits_nil
      refine ⟨.blank l :: ts, ms, ?_, List.forall_mem_cons.2 ⟨hl.2, hts⟩, hms, hc⟩
      simpa [Turn.inputs, hl.1] using hin
    · obtain ⟨ts, ms, hin, hts, hms, hc⟩ := chunks_of_waits rest [] waits_nil
      refine ⟨.run (ls ++ [l]) :: ts, ms, ?_, List.forall_mem_cons.2
        ⟨h.completes (by simpa using hl) hcomplete, hts⟩, hms, ?_⟩
      · rw [hlines, List.flatMap_cons, List.append_assoc, ← hin]
        rfl
      · exact congrArg (ofLines (ls ++ [l]) :: ·) hc
    · rw [hlines]
      exact chunks_of_waits rest (ls ++ [l])
        (h.concat (by simpa using hl) (by simpa using hcomplete))

/-- What a user does falls into turns, and at last lines that still wait when the input ends. The
chunks that a session runs are those of the turns, each complete and at none of its lines before the
last, and then those lines. So they are all that was typed, in order, without blank lines between
chunks and without what was discarded. -/
theorem chunks_eq_turns (inputs : List Input) :
    ∃ (ts : List Turn) (ls : List Text),
      inputs = ts.flatMap Turn.inputs ++ ls.map .line ∧ (∀ t ∈ ts, t.Happens) ∧ Waits ls ∧
      chunks [] inputs = ts.flatMap Turn.chunks ++ atEnd ls ∧
      (chunks [] inputs).flatten = ofLines (ts.flatMap Turn.kept ++ ls) := by
  obtain ⟨ts, ls, hin, hts, hls, hc⟩ := chunks_of_waits inputs [] waits_nil
  refine ⟨ts, ls, hin, hts, hls, hc, ?_⟩
  have hturns : (ts.flatMap Turn.chunks).flatten = ofLines (ts.flatMap Turn.kept) := by
    calc (ts.flatMap Turn.chunks).flatten = ts.flatMap fun t => t.chunks.flatten := by
          simp only [← List.flatMap_id, List.flatMap_assoc]
      _ = ts.flatMap fun t => ofLines t.kept := by simp only [Turn.flatten_chunks]
      _ = ofLines (ts.flatMap Turn.kept) := List.flatMap_assoc.symm
  have hlast : (atEnd ls).flatten = ofLines ls := by
    rcases ls with _ | ⟨l, ls⟩
    · rfl
    · simp [atEnd]
  rw [show chunks [] inputs = _ from hc, List.flatten_append, hturns, hlast, ofLines_append]

end Tacit.Repl
