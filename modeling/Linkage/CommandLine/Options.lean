import Linkage.Text.Integer

/-!
An option is written `--name`, `--name value`, `--name=value`, `-l`, `-l value`, `-lvalue` or
`-l=value`; letters may share one dash. After `--` only operands follow.
-/

namespace Linkage.CommandLine

/-- Why a command line is not carried out. -/
inductive Halt where
  | misuse
  | version
  | help
  deriving DecidableEq, Repr

inductive ValueForm where
  | text
  | path
  | number
  deriving DecidableEq, Repr

/-- A path is not empty, and a number has 64 bits. -/
def ValueForm.accepts : ValueForm → String → Bool
  | .text, _ => true
  | .path, s => !s.isEmpty
  | .number, s => (Text.int64? s).isSome

/-- How an option is used: without a value once or repeatedly, with a value once or repeatedly, or
in order to be told something. -/
inductive Use where
  | flag
  | count
  | value (form : ValueForm)
  | values (form : ValueForm)
  | notice (h : Halt)
  deriving DecidableEq, Repr

/-- The values of an option; none for one without values. -/
def Use.form? : Use → Option ValueForm
  | .value form => some form
  | .values form => some form
  | _ => none

structure Choice where
  name : String
  letter : Option Char
  use : Use
  deriving DecidableEq, Repr

/-- What is accepted up to a subcommand. The operands have a greatest number or none. -/
structure Level where
  choices : List Choice
  subcommands : List String
  operandLimit : Option Nat
  deriving DecidableEq, Repr

/-- What is given at a level: options with their values, operands, and the subcommand with the
arguments that follow it. -/
structure Given where
  options : List (String × String)
  operands : List String
  subcommand : Option (String × List String)
  deriving DecidableEq, Repr

namespace Given

def empty : Given := ⟨[], [], none⟩

def has (g : Given) (name : String) : Bool := g.options.any fun o => o.1 == name

/-- The values of an option in order. -/
def values (g : Given) (name : String) : List String :=
  (g.options.filter fun o => o.1 == name).map (·.2)

def value? (g : Given) (name : String) : Option String := (g.values name).head?

def number (g : Given) (name : String) (default : Int64) : Int64 :=
  ((g.value? name).bind Text.int64?).getD default

/-- Adds an option with a value, which is empty for an option without one. -/
def add (g : Given) (c : Choice) (value : String) : Except Halt Given :=
  let added : Given := { g with options := g.options ++ [(c.name, value)] }
  match c.use with
  | .notice h => .error h
  | .flag => if g.has c.name then .error .misuse else .ok added
  | .count => .ok added
  | .value form => if g.has c.name ∨ !form.accepts value then .error .misuse else .ok added
  | .values form => if form.accepts value then .ok added else .error .misuse

def addOperand (l : Level) (g : Given) (s : String) : Except Halt Given :=
  let added : Given := { g with operands := g.operands ++ [s] }
  match l.operandLimit with
  | some limit => if g.operands.length < limit then .ok added else .error .misuse
  | none => .ok added

end Given

/-- What an argument looks like. A dash alone is an operand. -/
inductive Shape where
  | separator
  | long (name : String) (value : Option String)
  | letters (cs : List Char)
  | operand
  deriving DecidableEq, Repr

def Shape.of (s : String) : Shape :=
  match s.toList with
  | ['-', '-'] => .separator
  | '-' :: '-' :: rest =>
    let name := String.ofList (rest.takeWhile (· != '='))
    match rest.dropWhile (· != '=') with
    | _ :: value => .long name (some (String.ofList value))
    | [] => .long name none
  | '-' :: c :: rest => .letters (c :: rest)
  | _ => .operand

/-- A value may stand in an argument of its own, unless it looks like an option. Numbers may be
negative. -/
def ValueForm.mayFollow (form : ValueForm) (s : String) : Bool :=
  match Shape.of s with
  | .operand => true
  | .letters cs => form == .number && cs.all Char.isDigit
  | _ => false

namespace Level

/-- What has been given, and an option whose value is still to come. -/
abbrev Progress := Given × Option (Choice × ValueForm)

/-- Reads letters that share one dash. The rest after the letter of an option with a value is its
value. -/
def readLetters (l : Level) (g : Given) : List Char → Except Halt Progress
  | [] => .ok (g, none)
  | c :: rest =>
    match l.choices.find? fun o => o.letter == some c with
    | none => .error .misuse
    | some o =>
      match o.use.form?, rest with
      | none, rest => do readLetters l (← g.add o "") rest
      | some form, [] => .ok (g, some (o, form))
      | some _, '=' :: value => (g.add o (String.ofList value)).map fun g => (g, none)
      | some _, value => (g.add o (String.ofList value)).map fun g => (g, none)

def readLong (l : Level) (g : Given) (name : String) (value : Option String) :
    Except Halt Progress :=
  match l.choices.find? fun o => o.name == name with
  | none => .error .misuse
  | some o =>
    match o.use.form?, value with
    | none, none => (g.add o "").map fun g => (g, none)
    | none, some _ => .error .misuse
    | some _, some value => (g.add o value).map fun g => (g, none)
    | some form, none => .ok (g, some (o, form))

def readArgument (l : Level) (g : Given) (s : String) : Except Halt Progress :=
  match Shape.of s with
  | .long name value => l.readLong g name value
  | .letters cs => l.readLetters g cs
  | _ => (g.addOperand l s).map fun g => (g, none)

def readFrom (l : Level) (g : Given) : List String → Except Halt Given
  | [] => .ok g
  | s :: rest =>
    if l.subcommands.contains s then .ok { g with subcommand := some (s, rest) }
    else if Shape.of s = .separator then rest.foldlM (Given.addOperand l) g
    else
      match l.readArgument g s with
      | .error h => .error h
      | .ok (g, none) => readFrom l g rest
      | .ok (g, some (o, form)) =>
        match rest with
        | [] => .error .misuse
        | value :: rest =>
          if form.mayFollow value then
            match g.add o value with
            | .error h => .error h
            | .ok g => readFrom l g rest
          else .error .misuse

def read (l : Level) (args : List String) : Except Halt Given := l.readFrom Given.empty args

end Level

end Linkage.CommandLine
