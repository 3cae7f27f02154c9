import Tacit.Pattern

/-!
# Searching a text for a pattern

A pattern is laid out as numbered instructions, and a search keeps the instructions that the
characters read so far can have led to, in order of preference, each with the place where its
attempt began. Every instruction is kept at most once, so a search takes time proportional to the
text. The leftmost match wins, and among matches from one place the preferred one.
-/

namespace Tacit.Pattern

/-- One instruction; the numbers are those of the instructions to go on with. -/
inductive Inst where
  | read (test : Char → Bool) (next : Nat)
  | split (preferred other : Nat)
  | check (a : Assertion) (next : Nat)
  | done

/-- Numbered instructions. -/
abbrev Code := Array Inst

/-- A choice between going on at `inside` and at `exit`, by greed. -/
def Inst.choice (greedy : Bool) (inside exit : Nat) : Inst :=
  if greedy then .split inside exit else .split exit inside

/-- Lays out a pattern that goes on at `next`, and gives the number it starts at. -/
def layout : Pattern → Nat → Code → Nat × Code
  | .empty, next, code => (next, code)
  | .set test, next, code => (code.size, code.push (.read test next))
  | .assertion a, next, code => (code.size, code.push (.check a next))
  | .seq a b, next, code =>
    let (start, code) := layout b next code
    layout a start code
  | .either a b, next, code =>
    let (second, code) := layout b next code
    let (first, code) := layout a next code
    (code.size, code.push (.split first second))
  | .group p, next, code => layout p next code
  | .rep kind greedy p, next, code =>
    match kind with
    | .optional =>
      let (inside, code) := layout p next code
      (code.size, code.push (.choice greedy inside next))
    | .plus =>
      let loop := code.size
      let (inside, code) := layout p loop (code.push .done)
      (inside, code.set! loop (.choice greedy inside next))
    | .star =>
      let loop := code.size
      let (inside, code) := layout p loop (code.push .done)
      let code := code.set! loop (.choice greedy inside next)
      if p.nullable then (code.size, code.push (.choice greedy inside next)) else (loop, code)
  | .times _ _ _ p, next, code => layout p next code

/-- A pattern ready to be searched for. -/
structure Program where
  code : Code
  entry : Nat

/-- The program of a pattern. -/
def program (p : Pattern) : Program :=
  let (entry, code) := layout p.unrolled 0 #[.done]
  ⟨code, entry⟩

def isWordChar (c : Char) : Bool := c.isAlphanum || c = '_'

/-- What stands on both sides of a place. -/
structure Surroundings where
  before : Option Char
  after : Option Char

/-- Whether an assertion holds at a place. -/
def Surroundings.satisfy (s : Surroundings) : Assertion → Bool
  | .textStart => s.before.isNone
  | .textEnd => s.after.isNone
  | .lineStart => s.before.isNone || s.before = some '\n'
  | .lineEnd => s.after.isNone || s.after = some '\n'
  | .wordEdge => s.before.any isWordChar != s.after.any isWordChar
  | .wordInside => s.before.any isWordChar == s.after.any isWordChar

/-- The instructions reached at a place, in order of preference, each with the index of the first
character of its attempt. -/
structure Reached where
  seen : Array Bool
  threads : Array (Nat × Nat)

def Reached.none (code : Code) : Reached := ⟨Array.replicate code.size false, #[]⟩

/-- Adds the instructions that those on the stack lead to without reading a character. -/
def Reached.add (code : Code) (around : Surroundings) (start : Nat) :
    Nat → List Nat → Reached → Reached
  | 0, _, r => r
  | _, [], r => r
  | fuel + 1, i :: stack, r =>
    if r.seen.getD i true then Reached.add code around start fuel stack r
    else
      let r := { r with seen := r.seen.set! i true }
      match code[i]? with
      | some (.split a b) => Reached.add code around start fuel (a :: b :: stack) r
      | some (.check a next) =>
        Reached.add code around start fuel (if around.satisfy a then next :: stack else stack) r
      | _ =>
        Reached.add code around start fuel stack { r with threads := r.threads.push (i, start) }

/-- Enough steps for the closure of one instruction: every instruction is expanded once. -/
def closureFuel (code : Code) : Nat := 2 * code.size + 2

/-- A stretch of a text by the indices of its characters, the end excluded. -/
structure Stretch where
  start : Nat
  stop : Nat
  deriving DecidableEq, Repr, Inhabited

/-- Lets the threads read a character, until one has matched the whole pattern. -/
def advance (code : Code) (index : Nat) (c : Option Char) (around : Surroundings) :
    List (Nat × Nat) → Reached → Option Stretch → Reached × Option Stretch
  | [], r, found => (r, found)
  | (i, start) :: threads, r, found =>
    match code[i]? with
    | some .done => (r, some ⟨start, index⟩)
    | some (.read test next) =>
      let r := if c.any test then Reached.add code around start (closureFuel code) [next] r else r
      advance code index c around threads r found
    | _ => advance code index c around threads r found

/-- The search from character `index`, with the text from there on. -/
def searchFrom (p : Program) : List Char → Option Char → Nat → Reached → Option Stretch →
    Option Stretch
  | rest, before, index, r, found =>
    let r := if found.isNone then
        Reached.add p.code ⟨before, rest.head?⟩ index (closureFuel p.code) [p.entry] r
      else r
    if r.threads.isEmpty && found.isSome then found
    else
      match rest with
      | [] => (advance p.code index none ⟨before, none⟩ r.threads.toList (.none p.code) found).2
      | c :: rest =>
        let (r', found) := advance p.code index (some c) ⟨some c, rest.head?⟩ r.threads.toList
          (.none p.code) found
        searchFrom p rest (some c) (index + 1) r' found

/-- The first match in the characters from `index` on, of which `before` is the one in front. -/
def Program.search (p : Program) (before : Option Char) (index : Nat) (rest : List Char) :
    Option Stretch :=
  searchFrom p rest before index (.none p.code) none

/-- The successive matches from `index` on. After an empty match the search goes on one character
later, and an empty match right where the match before it ended is left out. -/
def Program.matchesFrom (p : Program) : Nat → Option Char → Nat → List Char → Option Nat →
    List Stretch
  | 0, _, _, _, _ => []
  | fuel + 1, before, index, rest, lastStop =>
    match p.search before index rest with
    | none => []
    | some m =>
      let kept := if m.stop = index ∧ some m.start = lastStop then [] else [m]
      let skip := if m.stop = index then 1 else m.stop - index
      let passed := rest.take skip
      if rest.length < skip then kept
      else kept ++ p.matchesFrom fuel (passed.getLast?.or before) (index + skip) (rest.drop skip)
        (some m.stop)

/-- All successive matches in some characters. -/
def Program.matches (p : Program) (cs : List Char) : List Stretch :=
  p.matchesFrom (cs.length + 2) none 0 cs none

end Tacit.Pattern
