import Tacit.Fault
import Tacit.Setting

/-!
# Flags on a command line

A flag is written with two dashes and its name, or with one dash and a letter. A switch needs no
value; any other flag takes what follows an equals sign, or else the next argument. Flags and
other arguments may be mixed, letters may share a dash, and two dashes alone end the flags.
-/

namespace Tacit

/-- What a flag takes. -/
inductive Flag.Kind where
  | switch
  | text
  /-- A text each time it is given. -/
  | texts
  deriving DecidableEq, Repr, Inhabited

/-- A flag. -/
structure Flag where
  name : Text
  letter : Option UInt8
  kind : Flag.Kind
  /-- What it is when it is not given. -/
  standard : Text
  deriving DecidableEq, Repr, Inhabited

namespace Flag

/-- A switch that is off unless it is given. -/
def ofSwitch (name : Text) (letter : Option Char) : Flag :=
  ⟨name, letter.map Char.toUInt8, .switch, "false"⟩

def ofText (name standard : Text) : Flag := ⟨name, none, .text, standard⟩

def ofTexts (name : Text) : Flag := ⟨name, none, .texts, []⟩

def dash : UInt8 := '-'.toUInt8

def equals : UInt8 := '='.toUInt8

/-- The flag as messages show it. -/
def shown (f : Flag) : Text :=
  match f.letter with
  | some c => "-" ++ [c] ++ ", --" ++ f.name
  | none => "--" ++ f.name

/-- The fault of a switch that is given something that is no truth value. -/
def notTruth (f : Flag) (value : Text) : Fault :=
  .plain ("invalid argument " ++ Text.quoted value ++ " for " ++ Text.quoted f.shown
    ++ " flag: strconv.ParseBool: parsing " ++ Text.quoted value ++ ": invalid syntax")

/-! ## Reading a command line -/

/-- What was read of a command line. -/
structure Reading where
  /-- The flags given, each with its value, in order. -/
  given : List (Flag × Text)
  /-- The other arguments. -/
  operands : List Text
  /-- A flag that takes the next argument, and the fault if there is none. -/
  waiting : Option (Flag × Fault)
  /-- Whether the flags have ended. -/
  ended : Bool
  deriving Inhabited

namespace Reading

def empty : Reading := ⟨[], [], none, false⟩

/-- Gives a flag a value. -/
def give (r : Reading) (f : Flag) (value : Text) : Except Fault Reading :=
  if f.kind = .switch ∧ Setting.truth? value = none then .error (f.notTruth value)
  else .ok { r with given := r.given ++ [(f, value)] }

/-- Reads a flag with two dashes. -/
def long (flags : List Flag) (r : Reading) (arg : Text) : Except Fault Reading :=
  let body := arg.drop 2
  let name := body.takeWhile (· != equals)
  if name.isEmpty || body.head? == some dash then .error (.plain ("bad flag syntax: " ++ arg))
  else
    match flags.find? fun f => f.name == name with
    | none => .error (.plain ("unknown flag: --" ++ name))
    | some f =>
      if name.length < body.length then r.give f (body.drop (name.length + 1))
      else if f.kind = .switch then r.give f "true"
      else .ok { r with waiting := some (f, .plain ("flag needs an argument: " ++ arg)) }

/-- Reads the letters behind one dash. Options of a test run are passed over. -/
def short (flags : List Flag) (r : Reading) : Text → Except Fault Reading
  | [] => .ok r
  | c :: rest =>
    let inGroup : Text := Text.quotedChar (Char.ofNat c.toNat) ++ " in -" ++ (c :: rest)
    if (Text.after? "test." (c :: rest)).isSome then .ok r
    else
      match flags.find? fun f => f.letter == some c with
      | none => .error (.plain ("unknown shorthand flag: " ++ inGroup))
      | some f =>
        if rest.head? = some equals ∧ 1 < rest.length then r.give f (rest.drop 1)
        else if f.kind = .switch then do short flags (← r.give f "true") rest
        else if rest.isEmpty then
          .ok { r with waiting := some (f, .plain ("flag needs an argument: " ++ inGroup)) }
        else r.give f rest

/-- Reads an argument. -/
def step (flags : List Flag) (r : Reading) (arg : Text) : Except Fault Reading :=
  if r.ended then .ok { r with operands := r.operands ++ [arg] }
  else
    match r.waiting with
    | some (f, _) => give { r with waiting := none } f arg
    | none =>
      match arg with
      | a :: b :: rest =>
        if a = dash ∧ b = dash then
          if rest.isEmpty then .ok { r with ended := true } else r.long flags arg
        else if a = dash then r.short flags (b :: rest)
        else .ok { r with operands := r.operands ++ [arg] }
      | _ => .ok { r with operands := r.operands ++ [arg] }

/-- Reads a command line. -/
def ofArgs (flags : List Flag) (args : List Text) : Except Fault Reading := do
  let r ← args.foldlM (step flags) empty
  match r.waiting with
  | some (_, fault) => .error fault
  | none => .ok r

/-- What a flag was given, if it was. -/
def setting? (r : Reading) (name : Text) : Option Setting :=
  match r.given.filter fun (f, _) => f.name == name with
  | [] => none
  | (f, value) :: more =>
    match f.kind with
    | .switch => some (.switch ((Setting.truth? ((more.map (·.2)).getLastD value)).getD false))
    | .text => some (.text ((more.map (·.2)).getLastD value))
    | .texts => some (.list ((value :: more.map (·.2)).map .text))

end Reading

/-! ## Finding the words among flags -/

/-- Whether an argument is a flag that seems to take the next one. A flag that is not known does. -/
def takesNext (flags : List Flag) (arg : Text) : Bool :=
  if arg.contains equals then false
  else
    match arg with
    | a :: b :: rest =>
      if a = dash ∧ b = dash then
        !flags.any fun f => f.kind = .switch ∧ f.name = rest
      else if a = dash ∧ rest.isEmpty then
        !flags.any fun f => f.kind = .switch ∧ f.letter = some b
      else false
    | _ => false

/-- Two dashes, which end the flags. -/
def terminator : Text := "--"

/-- The arguments that are neither flags nor their values. -/
def words (flags : List Flag) : List Text → List Text
  | [] => []
  | arg :: rest =>
    if arg == terminator then []
    else if takesNext flags arg then
      match rest with
      | _ :: next :: more => words flags (next :: more)
      | _ => []
    else if arg.isEmpty || arg.head? == some dash then words flags rest
    else arg :: words flags rest

/-- The arguments without the first that is a given word. -/
def withoutWord (flags : List Flag) (word : Text) : List Text → List Text
  | [] => []
  | arg :: rest =>
    if arg == terminator then arg :: rest
    else if takesNext flags arg then
      match rest with
      | [] => [arg]
      | value :: more => arg :: value :: withoutWord flags word more
    else if arg == word then rest
    else arg :: withoutWord flags word rest

end Flag

end Tacit
