import Tacit.Text

/-!
# The language guide

The guide is kept line by line.
-/

namespace Tacit.Help

/-- The lines of the language guide. -/
def guideLines : List String :=
  [
   "# Brook language guide",
   "",
   "Brook programs are sequences of statements separated by \x60;\x60.  The value of a",
   "program is the value of its last statement.",
   "",
   "## Values",
   "",
   "    42  -1.5          numbers (64-bit floating point)",
   "    \"text\"            strings, no escape processing",
   "    [1 \"a\" [2]]       arrays, members separated by whitespace",
   "    true false        booleans, bound as builtin constants",
   "",
   "## Calls",
   "",
   "Every call takes at most two operands.  The function may be written before,",
   "after, or between its operands:",
   "",
   "    plus 1 2          prefix",
   "    1 plus 2          infix",
   "    [1 2 3] sum       postfix",
   "    sum [1 2 3]       prefix, one operand",
   "",
   "A name written between two operands is always the function, so \x60x f y\x60",
   "calls \x60f\x60.  Parentheses group a call, and a parenthesized call may itself be",
   "called:",
   "",
   "    (plus 1) 2",
   "    (S plus) (times 2)",
   "",
   "## Partial application",
   "",
   "A function given fewer operands than it declares returns a continuation",
   "awaiting the remaining operands.  The program",
   "",
   "    inc <- plus 1;",
   "    inc 41",
   "",
   "evaluates to 42, and \x60[1 2 3] map (times 2)\x60 evaluates to \x60[2 4 6]\x60.",
   "",
   "When a function operand is supplied where a value is expected, the result",
   "is a new function which first applies that operand.  \x60plus (times 2) 3\x60",
   "is a function computing \x60(x times 2) plus 3\x60.",
   "",
   "## Assignment",
   "",
   "\x60name <- expr\x60 binds the value of \x60expr\x60 to \x60name\x60 for the rest of the",
   "program.  A bare name evaluates to its value; a name bound to a function",
   "that takes no operands is called.",
   "",
   "## Errors",
   "",
   "Evaluation stops at the first error.  Errors carry a condition name and the",
   "location of the call which raised them:",
   "",
   "    lex-error         input that is not a token",
   "    parse-error       a statement which is not a valid expression",
   "    unbound-name      a name which is not a builtin and was never assigned",
   "    not-callable      operands applied to a value which is not a function",
   "    arity-error       more operands than a function accepts",
   "    type-mismatch     an operand of the wrong type",
   "    builtin-error     a failure raised inside a builtin",
   "",
   "Run \x60brook doc\x60 to list the builtins and \x60brook lint\x60 to check a program",
   "without running it."]

/-- The language guide. -/
def guide : Text := guideLines.flatMap fun l => Text.ofString l ++ Text.ofString "\n"

end Tacit.Help
