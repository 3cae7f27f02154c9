import Tacit.LineLog
import Tacit.Proofs.Splits

/-!
# A log does not show how it was written

What has been written is, at every time, the lines that were logged and then what is held back
(`Logged`): a write keeps that, and a flush logs the rest. So a session, which is some writes and
then a flush, logs the lines of what was written, wherever that was cut into writes, and leaves
nothing to the next session (`sessions_unchunked`).
-/

namespace Tacit.LineLog

open Location (newline)
open Profile.Callgrind (closed closed_append)

/-- Writes one after another: what comes of each, and the log that they leave. -/
def writes (log : LineLog) : List Text → List Written × LineLog
  | [] => ([], log)
  | t :: ts =>
    let (w, log) := log.write t
    let (ws, log) := log.writes ts
    (w :: ws, log)

/-- What comes of some writes and a flush behind them. -/
structure Session where
  /-- What is logged, in order. -/
  lines : List Text
  /-- How many bytes each write took. -/
  taken : List Nat
  deriving DecidableEq, Repr

def session (log : LineLog) (chunks : List Text) : Session × LineLog :=
  let (ws, log) := log.writes chunks
  let (rest, log) := log.flush
  (⟨ws.flatMap Written.lines ++ rest, ws.map Written.taken⟩, log)

/-- Sessions one after another. -/
def sessions (log : LineLog) : List (List Text) → List Session × LineLog
  | [] => ([], log)
  | chunks :: cuts =>
    let (s, log) := log.session chunks
    let (ss, log) := log.sessions cuts
    (s :: ss, log)

/-- Of a text that was written, some lines were logged and the rest is held back. -/
structure Logged (t : Text) (ls : List Text) (log : LineLog) : Prop where
  text : t = closed newline ls ++ log.pending
  whole : ∀ l ∈ ls, newline ∉ l
  pending : newline ∉ log.pending

theorem Logged.start : Logged [] [] empty := ⟨rfl, by simp, by simp [empty]⟩

section Logged

variable {t : Text} {ls : List Text} {log : LineLog} (h : Logged t ls log)
include h

theorem Logged.write (u : Text) :
    Logged (t ++ u) (ls ++ (log.write u).1.lines) (log.write u).2 := by
  obtain ⟨ms, last, hu, hms, hlast⟩ := Lines.exists_closed newline (log.pending ++ u)
  have hpieces : Text.pieces newline (log.pending ++ u) = ms ++ [last] := by
    rw [hu, Lines.pieces_closed hms hlast]
  have hwrite : log.write u = (⟨ms, u.length⟩, ⟨last⟩) := by
    simp only [LineLog.write, show (10 : UInt8) = newline from rfl, hpieces,
      List.dropLast_concat, List.getLastD_concat]
  rw [hwrite]
  refine ⟨?_, List.forall_mem_append.2 ⟨h.whole, hms⟩, hlast⟩
  rw [h.text, List.append_assoc, hu, closed_append, List.append_assoc]

theorem Logged.flush : ls ++ log.flush.1 = Lines.ofText t := by
  rw [h.text, Lines.ofText_closed h.whole h.pending]
  simp only [LineLog.flush, List.isEmpty_iff]

end Logged

/-- After some writes, the lines of all that was written are logged but for what is held back. -/
theorem Logged.writes {t : Text} {ls : List Text} {log : LineLog} (h : Logged t ls log)
    (chunks : List Text) : Logged (t ++ chunks.flatten)
      (ls ++ (log.writes chunks).1.flatMap Written.lines) (log.writes chunks).2 := by
  induction chunks generalizing t ls log with
  | nil => simpa [LineLog.writes] using h
  | cons u chunks ih =>
    have hrest := ih (h.write u)
    rw [List.append_assoc, List.append_assoc] at hrest
    exact hrest

theorem taken_writes (log : LineLog) (chunks : List Text) :
    (log.writes chunks).1.map Written.taken = chunks.map List.length := by
  induction chunks generalizing log with
  | nil => rfl
  | cons u chunks ih => exact congrArg (u.length :: ·) (ih _)

/-- A session logs the lines of all that was written in it, and leaves nothing behind. -/
theorem session_eq (chunks : List Text) : empty.session chunks =
    (⟨Lines.ofText chunks.flatten, chunks.map List.length⟩, empty) := by
  have hlines := (Logged.start.writes chunks).flush
  rw [List.nil_append, List.nil_append] at hlines
  simp only [session, hlines, taken_writes]
  rfl

theorem sessions_eq (cuts : List (List Text)) : empty.sessions cuts =
    (cuts.map fun chunks => ⟨Lines.ofText chunks.flatten, chunks.map List.length⟩, empty) := by
  induction cuts with
  | nil => rfl
  | cons chunks cuts ih => simp only [sessions, session_eq, ih, List.map_cons]

/-- However texts are cut into writes, one session for each text, their lines are logged; every
write takes the bytes it is given, and in the end nothing is held back. -/
theorem sessions_unchunked {texts : List Text} {cuts cuts' : List (List Text)}
    (h : cuts.map List.flatten = texts) (h' : cuts'.map List.flatten = texts) :
    (empty.sessions cuts).1.map Session.lines = texts.map Lines.ofText ∧
    (empty.sessions cuts').1.map Session.lines = (empty.sessions cuts).1.map Session.lines ∧
    (empty.sessions cuts).1.map Session.taken = cuts.map (List.map List.length) ∧
    (empty.sessions cuts).2 = empty := by
  have hlines : ∀ cs : List (List Text), cs.map List.flatten = texts →
      (empty.sessions cs).1.map Session.lines = texts.map Lines.ofText := by
    rintro cs rfl
    rw [sessions_eq, List.map_map, List.map_map]
    rfl
  refine ⟨hlines cuts h, (hlines cuts' h').trans (hlines cuts h).symm, ?_, ?_⟩
  · rw [sessions_eq, List.map_map]
    rfl
  · rw [sessions_eq]

/-- Two sessions, of which the first ends in the middle of a line. -/
theorem sessions_unchunked_split :
    let texts : List Text := ["a\nbc\n\nd", "e\n"]
    let cuts : List (List Text) := [["a\nb", "", "c\n\nd"], ["e\n"]]
    let cuts' : List (List Text) := [["a", "\n", "bc\n\n", "d"], ["", "e", "\n"]]
    let lines : List (List Text) := [["a", "bc", "", "d"], ["e"]]
    cuts.map List.flatten = texts ∧ cuts'.map List.flatten = texts ∧
    (empty.sessions cuts).1.map Session.lines = lines ∧
    (empty.sessions cuts').1.map Session.lines = lines := by
  intro texts cuts cuts' lines
  have hcuts : cuts.map List.flatten = texts := by decide
  have hcuts' : cuts'.map List.flatten = texts := by decide
  have hlines : texts.map Lines.ofText = lines := by decide
  obtain ⟨h, h', -, -⟩ := sessions_unchunked hcuts hcuts'
  exact ⟨hcuts, hcuts', h.trans hlines, h'.trans (h.trans hlines)⟩

end Tacit.LineLog
