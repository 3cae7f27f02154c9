import Tacit.Text.Wrap
import Tacit.World

/-!
# Help on names

The help on a function is its signature and its documentation, wrapped and indented; that on any
other name is its type and value. A list gives each function with the first sentence of its
documentation.
-/

namespace Tacit.Help

/-- The column at which documentation is wrapped. -/
def docWidth : Nat := 72

/-- The first sentence of a documentation, on one line. -/
def summary (doc : Text) : Text :=
  let doc := Text.joined " " (Text.words doc)
  match Text.indexOf? ". " doc with
  | some i => doc.take (i + 1)
  | none => doc

/-- A documentation as it is shown. -/
def shown (doc : Text) : Text :=
  let doc := Text.trimmed doc
  if doc.isEmpty then []
  else Text.dropTrailing "\n" (Wrap.indented 2 (Wrap.wrapped docWidth doc))

/-- The help on a function. -/
def functionText (name : Text) (f : Function) : Text :=
  let doc := shown f.doc
  let docLine : Text := if doc.isEmpty then [] else doc ++ "\n"
  name ++ Text.dropLeading "func" f.type.text ++ "\n" ++ docLine

/-- The help on a value bound to a name. -/
def valueText (name : Text) : Value → Text
  | .func f => functionText name f
  | v => v.type.text ++ " " ++ name ++ " " ++ v.text ++ "\n"

/-- The help on a name. -/
def nameText (names : Scope) (name : Text) : Except Fault Text :=
  match names.get? name with
  | some v => .ok (valueText name v)
  | none => .error (.unbound none name)

/-- A text with blanks behind it up to a width in characters. -/
def padded (width : Nat) (t : Text) : Text :=
  t ++ Text.repeated (width - Text.charCount t) ' '

/-- The line of the list for a name, if it is bound to a function. -/
def listLine (names : Scope) (name : Text) : Text :=
  match names.get? name with
  | some (.func f) => padded 12 name ++ " " ++ summary f.doc ++ "\n"
  | _ => []

/-- The list of all functions. -/
def listText (names : Scope) : Text := names.names.flatMap (listLine names)

/-- The fault of writing the help on a name to an output that fails. -/
def nameFault (names : Scope) (name : Text) (output : Fault) : Fault :=
  match names.get? name with
  | some (.func _) => .remarked "rendering signature" output
  | some _ => output
  | none => .unbound none name

end Tacit.Help
