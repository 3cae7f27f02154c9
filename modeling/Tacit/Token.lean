import Tacit.Location

/-!
# A token is a lexeme with its kind and place

The kinds have numbers, names shown in messages, and an order of preference in which a reader
tries them.
-/

namespace Tacit

/-- What a lexeme can be. -/
inductive TokenKind where
  | num
  | str
  | ident
  | parenL
  | parenR
  | braceL
  | braceR
  | semi
  | assign
  deriving DecidableEq, Repr, Inhabited

namespace TokenKind

/-- The kinds, the preferred first. A kind's number is its place here, counted from one. -/
def all : List TokenKind :=
  [.num, .str, .ident, .parenL, .parenR, .braceL, .braceR, .semi, .assign]

/-- How messages call a kind. -/
def name : TokenKind → Text
  | .num => "number"
  | .str => "string"
  | .ident => "identifier"
  | .parenL => "("
  | .parenR => ")"
  | .braceL => "["
  | .braceR => "]"
  | .semi => ";"
  | .assign => "<-"

/-- The kind with a number. -/
def ofNumber? (n : Int) : Option TokenKind :=
  if 0 < n then all[(n - 1).toNat]? else none

/-- How messages call the kind with a number, which may be none. -/
def nameOfNumber (n : Int) : Text := (ofNumber? n).elim ("invalid" : Text) name

/-- Whether the lexemes of a kind differ from each other. -/
def isVaried : TokenKind → Bool
  | .num | .str | .ident => true
  | _ => false

/-- A kind as messages show it, with the lexeme when that says more than the kind. -/
def describe (k : TokenKind) (lexeme : Text) : Text :=
  if k.isVaried then k.name ++ " " ++ lexeme else k.name

/-- The description of a lexeme whose kind is given by number. -/
def describeNumber (n : Int) (lexeme : Text) : Text :=
  (ofNumber? n).elim ("invalid" : Text) fun k => k.describe lexeme

end TokenKind

/-- A lexeme of a source. -/
structure Token where
  kind : TokenKind
  text : Text
  place : Location
  deriving DecidableEq, Repr, Inhabited

/-- A token as messages show it. -/
def Token.describe (t : Token) : Text := t.kind.describe t.text

end Tacit
