/-!
# A text is a list of bytes

A program, and every string it handles, is a list of bytes that need not spell characters. String
literals of this library stand for their UTF-8 bytes, so messages are built by appending literals
to texts.
-/

namespace Tacit

/-- A text: its bytes in order. -/
abbrev Text := List UInt8

namespace Text

/-- The UTF-8 bytes of a character. -/
def ofChar (c : Char) : Text :=
  let n := c.toNat
  if n < 0x80 then [n.toUInt8]
  else if n < 0x800 then [(0xC0 + n / 0x40).toUInt8, (0x80 + n % 0x40).toUInt8]
  else if n < 0x10000 then
    [(0xE0 + n / 0x1000).toUInt8, (0x80 + n / 0x40 % 0x40).toUInt8, (0x80 + n % 0x40).toUInt8]
  else
    [(0xF0 + n / 0x40000).toUInt8, (0x80 + n / 0x1000 % 0x40).toUInt8,
      (0x80 + n / 0x40 % 0x40).toUInt8, (0x80 + n % 0x40).toUInt8]

/-- The UTF-8 bytes of some characters. -/
def ofChars (cs : List Char) : Text := cs.flatMap ofChar

/-- The UTF-8 bytes of a string. -/
def ofString (s : String) : Text := ofChars s.toList

instance : Coe String Text := ⟨ofString⟩

/-- The decimal digits of a natural number. -/
def ofNat (n : Nat) : Text := ofChars (Nat.toDigits 10 n)

/-- The decimal digits of an integer, after a minus sign when it is negative. -/
def ofInt : Int → Text
  | .ofNat n => ofNat n
  | .negSucc n => '-'.toUInt8 :: ofNat (n + 1)

/-- `n` copies of a byte. -/
def repeated (n : Nat) (c : Char) : Text := List.replicate n c.toUInt8

/-- The texts one after another with `sep` between neighbours. -/
def joined (sep : Text) : List Text → Text
  | [] => []
  | [t] => t
  | t :: ts => t ++ sep ++ joined sep ts

/-- The pieces between the bytes equal to `sep`, one more than there are such bytes. -/
def pieces (sep : UInt8) : Text → List Text
  | [] => [[]]
  | b :: rest =>
    match pieces sep rest with
    | [] => [[b]]
    | p :: ps => if b = sep then [] :: p :: ps else (b :: p) :: ps

/-- What follows `pre`, when the text starts with it. -/
def after? : Text → Text → Option Text
  | [], t => some t
  | _ :: _, [] => none
  | p :: ps, b :: bs => if p = b then after? ps bs else none

theorem after?_append (t : Text) : ∀ p : Text, after? p (p ++ t) = some t
  | [] => rfl
  | b :: p => by simp [after?, after?_append t p]

theorem eq_append_of_after? {u : Text} : ∀ {p t : Text}, after? p t = some u → t = p ++ u
  | [], t, h => by simpa [after?] using h
  | _ :: _, [], h => by simp [after?] at h
  | a :: p, b :: t, h => by
    simp only [after?] at h
    split at h
    · next hab => rw [hab, List.cons_append, eq_append_of_after? h]
    · cases h

/-- The text without a leading `pre`, or unchanged when it does not start so. -/
def dropLeading (pre t : Text) : Text := (after? pre t).getD t

/-- What precedes `post`, when the text ends with it. -/
def before? (post t : Text) : Option Text :=
  (after? post.reverse t.reverse).map List.reverse

/-- The text without a trailing `post`, or unchanged when it does not end so. -/
def dropTrailing (post t : Text) : Text := (before? post t).getD t

/-- The least offset at which `needle` stands. -/
def indexOf? (needle : Text) : Text → Option Nat
  | [] => if needle.isEmpty then some 0 else none
  | b :: rest =>
    if (after? needle (b :: rest)).isSome then some 0
    else (indexOf? needle rest).map (· + 1)

/-- Dictionary order by bytes. -/
def le : Text → Text → Bool
  | [], _ => true
  | _ :: _, [] => false
  | a :: as, b :: bs => a < b || (a == b && le as bs)

/-- Dictionary order by bytes, equal texts excluded. -/
def lt (a b : Text) : Bool := !le b a

/-- Texts in dictionary order. -/
def sorted (ts : List Text) : List Text := ts.mergeSort le

/-- Some text between two marks. -/
def between (opening closing inner : Text) : Text := opening ++ inner ++ closing

def isDigit (b : UInt8) : Bool := '0'.toUInt8 ≤ b && b ≤ '9'.toUInt8

def isLetter (b : UInt8) : Bool :=
  ('a'.toUInt8 ≤ b && b ≤ 'z'.toUInt8) || ('A'.toUInt8 ≤ b && b ≤ 'Z'.toUInt8)

/-- The lower-case form of an ASCII letter; any other byte is itself. -/
def lowerByte (b : UInt8) : UInt8 :=
  if 'A'.toUInt8 ≤ b && b ≤ 'Z'.toUInt8 then b + 32 else b

/-- The upper-case form of an ASCII letter; any other byte is itself. -/
def upperByte (b : UInt8) : UInt8 :=
  if 'a'.toUInt8 ≤ b && b ≤ 'z'.toUInt8 then b - 32 else b

/-- The ASCII letters of the text in lower case. -/
def lower (t : Text) : Text := t.map lowerByte

/-- The ASCII letters of the text in upper case. -/
def upper (t : Text) : Text := t.map upperByte

end Text

end Tacit
