import Tacit.Text.Utf8

/-!
# Search patterns

A pattern describes the stretches of a text that it matches. Where several stretches from one
place match, the order of the alternatives and the greed of the repetitions say which is taken.
-/

namespace Tacit

/-- A condition on the place between two characters. -/
inductive Assertion where
  | textStart
  | textEnd
  | lineStart
  | lineEnd
  | wordEdge
  | wordInside
  deriving DecidableEq, Repr

/-- A repetition without bounds of its own. -/
inductive Repetition where
  | star
  | plus
  | optional
  deriving DecidableEq, Repr

/-- A search pattern. Sets of characters are given by their test. -/
inductive Pattern where
  | empty
  | set (test : Char → Bool)
  | assertion (a : Assertion)
  | seq (first second : Pattern)
  | either (first second : Pattern)
  | group (inner : Pattern)
  | rep (kind : Repetition) (greedy : Bool) (inner : Pattern)
  /-- From `least` to `most` copies; no bound above when `most` is absent. -/
  | times (least : Nat) (most : Option Nat) (greedy : Bool) (inner : Pattern)

namespace Pattern

/-- The patterns one after another. -/
def seqAll : List Pattern → Pattern
  | [] => empty
  | [p] => p
  | p :: ps => seq p (seqAll ps)

/-- The patterns as alternatives, the first preferred. -/
def eitherAll : List Pattern → Pattern
  | [] => empty
  | [p] => p
  | p :: ps => either p (eitherAll ps)

/-- Whether nested bounded repetitions ask for at most `limit` copies of anything. -/
def withinCopies (limit : Nat) : Pattern → Bool
  | empty | set _ | assertion _ => true
  | seq a b | either a b => withinCopies limit a && withinCopies limit b
  | group p | rep _ _ p => withinCopies limit p
  | times least most _ p =>
    let copies := most.getD least
    if most = some 0 then true
    else if limit < copies then false
    else withinCopies (if copies = 0 then limit else limit / copies) p

/-- How deeply patterns nest. Neighbours in a sequence, or in a choice, are at one level. -/
def height : Pattern → Nat
  | empty | set _ | assertion _ => 1
  | seq a b =>
    match b with
    | seq _ _ => max (height a + 1) (height b)
    | _ => max (height a) (height b) + 1
  | either a b =>
    match b with
    | either _ _ => max (height a + 1) (height b)
    | _ => max (height a) (height b) + 1
  | group p | rep _ _ p | times _ _ _ p => height p + 1

/-- Whether a pattern can match without reading a character. -/
def nullable : Pattern → Bool
  | empty | assertion _ => true
  | set _ => false
  | seq a b => nullable a && nullable b
  | either a b => nullable a || nullable b
  | group p => nullable p
  | rep .plus _ p => nullable p
  | rep .star _ _ | rep .optional _ _ => true
  | times least _ _ p => least = 0 || nullable p

/-- `n` copies of a pattern in a row. -/
def copies (n : Nat) (p : Pattern) : List Pattern := List.replicate n p

/-- Up to `n` copies of a pattern, each further one inside the option of the one before. -/
def upTo (greedy : Bool) (p : Pattern) : Nat → Pattern
  | 0 => empty
  | 1 => rep .optional greedy p
  | n + 1 => rep .optional greedy (seq p (upTo greedy p n))

/-- A bounded repetition in terms of copies, options and unbounded repetition. -/
def expanded (least : Nat) (most : Option Nat) (greedy : Bool) (p : Pattern) : Pattern :=
  match p, least, most with
  | empty, _, _ => empty
  | p, 0, none => rep .star greedy p
  | p, n + 1, none => seqAll (copies n p ++ [rep .plus greedy p])
  | p, least, some most =>
    if least < most then seqAll (copies least p ++ [upTo greedy p (most - least)])
    else seqAll (copies least p)

/-- The pattern without bounded repetitions. -/
def unrolled : Pattern → Pattern
  | seq a b => seq a.unrolled b.unrolled
  | either a b => either a.unrolled b.unrolled
  | group p => p.unrolled
  | rep k g p => rep k g p.unrolled
  | times least most g p => expanded least most g p.unrolled
  | p => p

end Pattern

end Tacit
