import Tacit.Fault
import Tacit.Setting
import Tacit.Text.Quoted

/-!
# Settings written in YAML

A document of settings is a table of names and values. A value is written behind its name or
indented below it: a word, a text between quotes, a list or a further table. Lists and tables can
also be written between brackets, over several lines. Anchors, tags and texts kept line by line
are not read.
-/

namespace Tacit.Setting.Document

/-- The fault of a document. -/
def fault (problem : Text) : Fault := .plain ("yaml: " ++ problem)

/-- A problem behind the number of its line; the number zero is not told. -/
def atLine (line : Nat) (problem : Text) : Fault :=
  if line = 0 then fault problem else fault ("line " ++ Text.ofNat line ++ ": " ++ problem)

/-- A problem in the words of a line, counted from one; the first line is not told. -/
def inLine (number : Nat) (problem : Text) : Fault :=
  atLine (if number ≤ 1 then 0 else number) problem

/-- A name where no value can have one. -/
def misplacedName (number : Nat) : Fault :=
  inLine number "mapping values are not allowed in this context"

/-! ## Lines -/

/-- A line that is not blank. -/
structure Line where
  /-- Its number, counted from one. -/
  number : Nat
  indent : Nat
  /-- The line without blanks around it. -/
  body : Text
  deriving DecidableEq, Repr, Inhabited

def isSpace (b : UInt8) : Bool := b == 32 || b == 9 || b == 10 || b == 13

/-- The text without spaces at its start. -/
def skipSpaces (t : Text) : Text := t.dropWhile isSpace

/-- The text without spaces at its end. -/
def withoutTail (t : Text) : Text := (t.reverse.dropWhile isSpace).reverse

def hash : UInt8 := '#'.toUInt8

def colon : UInt8 := ':'.toUInt8

/-- The line of a text, unless it is blank or a comment. -/
def Line.ofText? (number : Nat) (t : Text) : Option Line :=
  let inner := t.dropWhile (· == 32)
  let body := withoutTail inner
  if body.isEmpty || body.head? == some hash then none
  else some ⟨number, t.length - inner.length, body⟩

/-- The lines of a text that are not blank, from a number on. -/
def linesFrom : Nat → List Text → List Line
  | _, [] => []
  | n, t :: ts => (Line.ofText? n t).toList ++ linesFrom (n + 1) ts

/-- Whether a line divides documents. -/
def Line.isDivider (l : Line) : Bool :=
  l.indent == 0 && (l.body == Text.ofString "---" || l.body == Text.ofString "...")

/-- The lines of the first document. -/
def firstDocument (ls : List Line) : List Line :=
  (ls.dropWhile Line.isDivider).takeWhile fun l => !l.isDivider

/-! ## Words -/

/-- The whole number a word spells. -/
def whole? (t : Text) : Option Int :=
  let (negative, digits) : Bool × Text := match t with
    | b :: rest =>
      if b = '-'.toUInt8 then (true, rest) else if b = '+'.toUInt8 then (false, rest)
      else (false, t)
    | [] => (false, [])
  if digits.isEmpty || !digits.all Text.isDigit then none
  else
    let n : Int := Decimal.natOf digits
    some (if negative then -n else n)

/-- The number with a fraction that a word spells. -/
def real? (t : Text) : Option Float :=
  let digits := match t with
    | b :: rest => if b = '-'.toUInt8 ∨ b = '+'.toUInt8 then rest else t
    | [] => []
  match Text.pieces '.'.toUInt8 digits with
  | [a, b] =>
    if (a ++ b).isEmpty || !(a ++ b).all Text.isDigit then none else Decimal.read? t
  | _ => none

/-- The words for a value that is not there. -/
def nullWords : List Text := ["", "~", "null", "Null", "NULL"]

/-- The words for true and for false. -/
def truthWords : List (Text × Bool) :=
  [("true", true), ("True", true), ("TRUE", true), ("false", false), ("False", false),
    ("FALSE", false)]

/-- What a word without quotes stands for. -/
def ofWord (t : Text) : Setting :=
  if nullWords.contains t then .null
  else
    match truthWords.lookup t, whole? t, real? t with
    | some b, _, _ => .switch b
    | none, some n, _ => .whole n
    | none, none, some x => .real x
    | none, none, none => .text t

/-- How a kind of value is called. -/
def kindName : Setting → Text
  | .null => "!!null"
  | .switch _ => "!!bool"
  | .whole _ => "!!int"
  | .real _ => "!!float"
  | .text _ => "!!str"
  | .list _ => "!!seq"
  | .table _ => "!!map"

/-- The bytes of a word up to a comment, or to a colon that ends a name; and the rest. -/
def scanWord (stops : UInt8 → Bool) : Bool → Text → Text × Text
  | _, [] => ([], [])
  | afterSpace, b :: rest =>
    if afterSpace && b == hash then ([], b :: rest)
    else if b == colon && (rest.head?.all fun c => isSpace c || stops c) then ([], b :: rest)
    else if stops b then ([], b :: rest)
    else
      let (word, rest) := scanWord stops (isSpace b) rest
      (b :: word, rest)

/-- Whether only a comment is left. -/
def isDone (t : Text) : Bool :=
  let t := skipSpaces t
  t.isEmpty || t.head? == some hash

def singleQuote : UInt8 := '\''.toUInt8

def doubleQuote : UInt8 := '"'.toUInt8

/-- The rest of a text between single quotes, in which two quotes are one. -/
def scanSingle : Text → Option (Text × Text)
  | [] => none
  | b :: rest =>
    if b = singleQuote then
      match rest with
      | c :: more =>
        if c = singleQuote then (scanSingle more).map fun (t, r) => (singleQuote :: t, r)
        else some ([], rest)
      | [] => some ([], [])
    else (scanSingle rest).map fun (t, r) => (b :: t, r)

/-- The byte that a letter behind a backslash stands for. -/
def escaped (b : UInt8) : UInt8 :=
  if b = 'n'.toUInt8 then 10
  else if b = 't'.toUInt8 then 9
  else if b = 'r'.toUInt8 then 13
  else if b = '0'.toUInt8 then 0
  else b

/-- The rest of a text between double quotes, in which a backslash changes what follows. -/
def scanDouble : Text → Option (Text × Text)
  | [] => none
  | b :: rest =>
    if b = doubleQuote then some ([], rest)
    else if b = '\\'.toUInt8 then
      match rest with
      | c :: more => (scanDouble more).map fun (t, r) => (escaped c :: t, r)
      | [] => none
    else (scanDouble rest).map fun (t, r) => (b :: t, r)

/-- A text between quotes, if there is a quote, and the rest. -/
def quoted? : Text → Option (Option (Text × Text))
  | [] => none
  | b :: rest =>
    if b = singleQuote then some (scanSingle rest)
    else if b = doubleQuote then some (scanDouble rest)
    else none

/-! ## Lists and tables between brackets -/

def comma : UInt8 := ','.toUInt8

def isBracket (b : UInt8) : Bool := [91, 93, 123, 125].contains b

/-- Whether a byte ends a word between brackets. -/
def endsWord (b : UInt8) : Bool := isBracket b || b == comma

/-- Where a value between brackets lies: the number of lines in front of it, and in all. -/
structure Extent where
  before : Nat
  total : Nat

/-- The fault of a value that is missing where the document ends. -/
def Extent.noValue (e : Extent) : Fault := atLine e.total "did not find expected node content"

/-- The fault of members that nothing divides. -/
def Extent.undivided (e : Extent) (closing : Text) : Fault :=
  atLine (if e.before = 0 then e.total else e.before)
    ("did not find expected ',' or '" ++ closing ++ "'")

/-- The fault of a quote that is never closed. -/
def Extent.unclosed (e : Extent) : Fault :=
  inLine (e.before + 1) "found unexpected end of stream"

/-- Skips spaces and comments. -/
def skipComments : Nat → Text → Text
  | 0, t => t
  | fuel + 1, t =>
    match skipSpaces t with
    | b :: rest =>
      if b = hash then skipComments fuel (rest.dropWhile (· != 10)) else b :: rest
    | [] => []

mutual

/-- A value between brackets, and the rest. -/
def flowValue (e : Extent) : Nat → Text → Except Fault (Setting × Text)
  | 0, _ => .error e.noValue
  | fuel + 1, t =>
    let t := skipComments t.length t
    match quoted? t with
    | some (some (s, rest)) => .ok (.text s, rest)
    | some none => .error e.unclosed
    | none =>
      match t with
      | [] => .error e.noValue
      | b :: rest =>
        if b = 91 then do
          let (members, rest) ← flowList e fuel [] rest
          return (.list members, rest)
        else if b = 123 then do
          let (entries, rest) ← flowTable e fuel [] rest
          return (.table entries, rest)
        else if endsWord b then .error e.noValue
        else
          let (word, rest) := scanWord endsWord false t
          .ok (ofWord (withoutTail word), rest)

/-- The members of a list up to its closing bracket, after those read before, last first. -/
def flowList (e : Extent) : Nat → List Setting → Text → Except Fault (List Setting × Text)
  | 0, _, _ => .error e.noValue
  | fuel + 1, members, t => do
    let t := skipComments t.length t
    if t.head? = some 93 then return (members.reverse, t.drop 1)
    else
      let (v, rest) ← flowValue e fuel t
      let rest := skipComments rest.length rest
      match rest with
      | b :: more =>
        if b = comma then flowList e fuel (v :: members) more
        else if b = 93 then return ((v :: members).reverse, more)
        else .error (e.undivided "]")
      | [] => .error (e.undivided "]")

/-- The entries of a table up to its closing bracket, after those read before, last first. -/
def flowTable (e : Extent) :
    Nat → List (Text × Setting) → Text → Except Fault (List (Text × Setting) × Text)
  | 0, _, _ => .error e.noValue
  | fuel + 1, entries, t => do
    let t := skipComments t.length t
    if t.head? = some 125 then return (entries.reverse, t.drop 1)
    else
      let (k, rest) ← flowValue e fuel t
      let rest := skipComments rest.length rest
      let (v, rest) ← if rest.head? = some colon then flowEntry e fuel (rest.drop 1)
        else pure (.null, rest)
      let entries := (k.asText, v) :: entries
      let rest := skipComments rest.length rest
      match rest with
      | b :: more =>
        if b = comma then flowTable e fuel entries more
        else if b = 125 then return (entries.reverse, more)
        else .error (e.undivided "\x7d")
      | [] => .error (e.undivided "\x7d")

/-- The value of an entry, which may be left out. -/
def flowEntry (e : Extent) : Nat → Text → Except Fault (Setting × Text)
  | 0, _ => .error e.noValue
  | fuel + 1, t =>
    let t := skipComments t.length t
    if t.head? = some comma ∨ t.head? = some 125 then .ok (.null, t) else flowValue e fuel t

end

/-! ## Values on lines -/

/-- A name and what follows its colon. -/
def nameOf? (body : Text) : Option (Text × Text) :=
  match quoted? body with
  | some (some (name, rest)) =>
    match skipSpaces rest with
    | b :: rest => if b = colon ∧ rest.head?.all isSpace then some (name, rest) else none
    | [] => none
  | some none => none
  | none =>
    if body.head?.any isBracket then none
    else
      match scanWord (fun _ => false) false body with
      | (name, b :: rest) => if b = colon then some (withoutTail name, rest) else none
      | (_, []) => none

/-- Whether a line is a member of a list. -/
def Line.isMember (l : Line) : Bool :=
  l.body == Text.ofString "-" || (Text.after? "- " l.body).isSome

/-- A word that goes on over further lines, in which there can be no name. -/
def wordOver (first : Nat) (t : Text) (more : List Line) : Except Fault Setting := do
  let piece (number : Nat) (t : Text) : Except Fault Text :=
    match scanWord (fun _ => false) false t with
    | (word, rest) =>
      if rest.head? = some colon then .error (misplacedName number) else .ok (withoutTail word)
  let start ← piece first t
  let pieces ← more.mapM fun l => piece l.number l.body
  return ofWord (Text.joined " " (start :: pieces))

/-- A value written on a line from a text on, and on the lines that belong to it. -/
def valueOver (total number : Nat) (t : Text) (more : List Line) : Except Fault Setting := do
  let e : Extent := ⟨number - 1, total⟩
  match t with
  | [] => return .null
  | b :: _ =>
    if isBracket b || (quoted? t).isSome then
      let all := Text.joined "\n" (t :: more.map (·.body))
      let (v, rest) ← flowValue e (2 * all.length + 2) all
      if isDone rest then return v else .error (atLine number "did not find expected key")
    else if b = 9 ∨ b = '@'.toUInt8 ∨ b = 0x60 ∨ b = '%'.toUInt8 then
      .error (inLine number "found character that cannot start any token")
    else wordOver number t more

/-- What is said of a name that a table has on two lines. -/
def repetition (name : Text) (line again : Nat) : Text :=
  "\n  line " ++ Text.ofNat again ++ ": mapping key " ++ Text.quoted name
    ++ " already defined at line " ++ Text.ofNat line

/-- What is said of all names, given with their lines, that a table has twice. -/
def repetitions : List (Text × Nat) → Text
  | [] => []
  | (name, line) :: rest =>
    (rest.filter fun (other, _) => other == name).flatMap
      (fun (_, again) => repetition name line again) ++ repetitions rest

mutual

/-- The value that lines of a document hold. -/
def block (total : Nat) : Nat → List Line → Except Fault Setting
  | 0, _ => .ok .null
  | _, [] => .ok .null
  | fuel + 1, l :: rest =>
    if l.body.head? = some 9 then
      .error (inLine l.number "found character that cannot start any token")
    else if l.isMember then do return .list (← members total l.indent fuel (l :: rest))
    else if (nameOf? l.body).isSome then do
      let entries ← entries total l.indent fuel (l :: rest)
      match repetitions (entries.map fun (name, line, _) => (name, line)) with
      | [] => return .table (entries.map fun (name, _, v) => (name, v))
      | told => .error (fault ("unmarshal errors:" ++ told))
    else valueOver total l.number l.body rest

/-- The members of a list at an indentation. -/
def members (total indent : Nat) : Nat → List Line → Except Fault (List Setting)
  | 0, _ => .ok []
  | _, [] => .ok []
  | fuel + 1, l :: rest =>
    if l.indent = indent ∧ l.isMember then do
      let inner := rest.takeWhile fun m => indent < m.indent
      let after := rest.drop inner.length
      let body := l.body.drop 1
      let text := skipSpaces body
      let own : List Line :=
        if text.isEmpty || text.head? == some hash then []
        else [⟨l.number, l.indent + 1 + (body.length - text.length), text⟩]
      let v ← block total fuel (own ++ inner)
      return v :: (← members total indent fuel after)
    else .error (atLine (l.number - 1) "did not find expected '-' indicator")

/-- The entries of a table at an indentation, each with the number of its line. -/
def entries (total indent : Nat) : Nat → List Line → Except Fault (List (Text × Nat × Setting))
  | 0, _ => .ok []
  | _, [] => .ok []
  | fuel + 1, l :: rest =>
    if l.indent ≠ indent ∨ l.isMember then
      .error (atLine (l.number - 1) "did not find expected key")
    else
      match nameOf? l.body with
      | none => .error (inLine l.number "could not find expected ':'")
      | some (name, t) => do
        let t := skipSpaces t
        let t := if t.head? = some hash then [] else t
        let inner := rest.takeWhile fun m =>
          indent < m.indent || (t.isEmpty && m.indent == indent && m.isMember)
        let v ← if t.isEmpty then block total fuel inner else valueOver total l.number t inner
        return (name, l.number, v) :: (← entries total indent fuel (rest.drop inner.length))

end

/-- The fault of a document that is no table. -/
def noTable (number : Nat) (v : Setting) : Fault :=
  let shown : Text := match v.asText? with
    | none => []
    | some t =>
      if 10 < t.length then " \x60" ++ t.take 7 ++ "...\x60" else " \x60" ++ t ++ "\x60"
  fault ("unmarshal errors:\n  line " ++ Text.ofNat number ++ ": cannot unmarshal " ++ kindName v
    ++ shown ++ " into map[string]interface \x7b\x7d")

/-- The settings in a document, with their names in lower case. -/
def read (t : Text) : Except Fault (List (Text × Setting)) := do
  let texts := Text.pieces 10 t
  let total := if texts.getLast? = some [] then texts.length - 1 else texts.length
  let lines := firstDocument (linesFrom 1 texts)
  match ← block total (2 * t.length + 2) lines with
  | .table es => return es.map fun (name, v) => (Text.lower name, v)
  | .null => return []
  | v => .error (noTable ((lines.head?.map (·.number)).getD 1) v)

end Tacit.Setting.Document
