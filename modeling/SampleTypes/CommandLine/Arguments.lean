import SampleTypes.Json.Fault
import SampleTypes.Text.Digits
import SampleTypes.TypeName
import SampleTypes.Value

/-!
Command line arguments. An argument that starts with a dash is an option: it is named in full or, if
it is a long one, by any start that fits only one option, and may carry a value after `=`. Arguments
after `--` are no options. The first unbroken run of other arguments are the operands.
-/

namespace SampleTypes.CommandLine

inductive Action where
  | help
  | flag (dest : String)
  | text (dest : String)
  | integer (dest : String)
  deriving DecidableEq, Repr

def Action.takesValue : Action → Bool
  | .help | .flag _ => false
  | .text _ | .integer _ => true

/-- What the arguments that are no options stand for: a list of values, or a command with all the
arguments after it. -/
inductive Operands where
  | values (dest : String)
  | command
  deriving DecidableEq, Repr

structure Grammar where
  options : List (String × Action)
  operands : Operands
  deriving DecidableEq, Repr

structure Attached where
  afterEquals : Bool
  value : List Char
  deriving DecidableEq, Repr

/-- An argument read as an option. No action means that no option has this name. -/
structure Reading where
  action : Option Action
  name : List Char
  attached : Option Attached
  deriving DecidableEq, Repr

inductive Mark where
  | operand
  | divider
  | option (reading : Reading)
  deriving DecidableEq, Repr

def lookup (options : List (String × Action)) (name : List Char) : Option Action :=
  options.lookup (String.ofList name)

def splitEquals (arg : List Char) : List Char × Option (List Char) :=
  match arg.dropWhile (· != '=') with
  | [] => (arg, none)
  | _ :: value => (arg.takeWhile (· != '='), some value)

/-- The options that an argument may stand for when none has exactly its name. -/
def candidates (options : List (String × Action)) (arg : List Char) : List Reading :=
  match arg with
  | '-' :: '-' :: _ =>
    let (start, value) := splitEquals arg
    (options.filter fun option => start.isPrefixOf option.1.toList).map fun (name, action) =>
      ⟨some action, name.toList, value.map fun v => ⟨true, v⟩⟩
  | _ =>
    options.filterMap fun (name, action) =>
      if name.toList = arg.take 2 then some ⟨some action, name.toList, some ⟨false, arg.drop 2⟩⟩
      else if arg.isPrefixOf name.toList then some ⟨some action, name.toList, none⟩
      else none

def isDecimalDigit (c : Char) : Bool := (Text.digitValue? c).isSome

/-- Digits after a dash, or a point between digits of which those in front may be missing. -/
def isNegativeNumber (arg : List Char) : Bool :=
  match beforeFinalLineFeed arg with
  | '-' :: number =>
    match number.dropWhile isDecimalDigit with
    | [] => !number.isEmpty
    | '.' :: fraction => !fraction.isEmpty && fraction.all isDecimalDigit
    | _ => false
  | _ => false

/-- Nothing when an abbreviation fits several options. -/
def mark? (options : List (String × Action)) (arg : List Char) : Option Mark :=
  if arg.head? != some '-' || arg.length = 1 then some .operand
  else match lookup options arg with
    | some action => some (.option ⟨some action, arg, none⟩)
    | none =>
      let (name, value) := splitEquals arg
      match lookup options name, value with
      | some action, some value => some (.option ⟨some action, name, some ⟨true, value⟩⟩)
      | _, _ =>
        match candidates options arg with
        | [reading] => some (.option reading)
        | _ :: _ :: _ => none
        | [] =>
          if isNegativeNumber arg || arg.contains ' ' then some .operand
          else some (.option ⟨none, arg, none⟩)

def markAll? (options : List (String × Action)) : List String → Option (List (String × Mark))
  | [] => some []
  | arg :: rest =>
    if arg = "--" then some ((arg, .divider) :: rest.map fun other => (other, .operand))
    else do return (arg, ← mark? options arg.toList) :: (← markAll? options rest)

/-- Several short options in one argument, none of which takes a value. Nothing when one of them is
given a value; `true` when an unknown one ends the list. -/
def cluster? (options : List (String × Action)) : List Char → Option (List Action × Bool)
  | [] => some ([], false)
  | c :: rest =>
    if c = '-' || c = '=' then none
    else match lookup options ['-', c] with
      | none => some ([], true)
      | some action => (cluster? options rest).map fun (actions, unknown) =>
        (action :: actions, unknown)

def attachedActions? (options : List (String × Action)) (reading : Reading) (action : Action)
    (attached : Attached) : Option (List Action × Bool) :=
  if (reading.name.drop 1).head? = some '-' || attached.afterEquals || attached.value.isEmpty then none
  else match attached.value.head? with
    | some '=' => none
    | _ => (cluster? options attached.value).map fun (actions, unknown) => (action :: actions, unknown)

structure Progress where
  values : List (String × Value)
  operands : List String
  seen : Bool
  closed : Bool
  leftover : Bool
  deriving Repr

/-- Arguments that are left over are an error, but only after a command among the others has been
read: it may still ask for help. -/
inductive Outcome where
  | usageError
  | help
  | parsed (values : List (String × Value)) (operands : List String) (leftover : Bool)
  deriving Repr

def Progress.put (p : Progress) (dest : String) (v : Value) : Progress :=
  { p with values := Entries.put dest v p.values }

def Progress.close (p : Progress) : Progress := { p with closed := p.closed || p.seen }

/-- The progress after an action, or nothing for help and for a value that does not fit. -/
def Action.store? (action : Action) (value : List Char) (p : Progress) : Option Progress :=
  match action with
  | .help => none
  | .flag dest => some (p.put dest (.bool true))
  | .text dest => some (p.put dest (.string (String.ofList value)))
  | .integer dest =>
    (Text.readInteger? Json.maxIntegerDigits value).map fun i => p.put dest (.int i)

def takeAll (p : Progress) : List Action → Option Progress
  | [] => some p
  | action :: rest => (action.store? [] p).bind fun p => takeAll p rest

def Progress.addOperand (p : Progress) (text : Option String) : Progress :=
  if p.closed then { p with leftover := true }
  else { p with seen := true, operands := p.operands ++ text.toList }

def finish (grammar : Grammar) (p : Progress) : Outcome :=
  match grammar.operands with
  | .values dest => .parsed (p.put dest (.list (p.operands.map fun (text : String) => .string text))).values [] p.leftover
  | .command => .parsed p.values p.operands p.leftover

def parseMarked (grammar : Grammar) (p : Progress) : List (String × Mark) → Outcome
  | [] => finish grammar p
  | (text, .operand) :: rest =>
    match grammar.operands with
    | .values _ => parseMarked grammar (p.addOperand (some text)) rest
    | .command => finish grammar { p with operands := text :: rest.map Prod.fst }
  | (_, .divider) :: rest =>
    match grammar.operands with
    | .values _ => parseMarked grammar (p.addOperand none) rest
    | .command => .usageError
  | (_, .option reading) :: rest =>
    match reading.action, reading.attached with
    | none, _ => parseMarked grammar { p.close with leftover := true } rest
    | some action, some attached =>
      if action.takesValue then
        match action.store? attached.value p.close with
        | some p => parseMarked grammar p rest
        | none => .usageError
      else match attachedActions? grammar.options reading action attached with
        | none => .usageError
        | some (actions, unknown) =>
          match takeAll p.close actions with
          | none => .help
          | some p => parseMarked grammar { p with leftover := p.leftover || unknown } rest
    | some action, none =>
      if action.takesValue then
        match rest with
        | (value, .operand) :: after =>
          match action.store? value.toList p.close with
          | some p => parseMarked grammar p after
          | none => .usageError
        | _ => .usageError
      else match takeAll p.close [action] with
        | none => .help
        | some p => parseMarked grammar p rest

def parse (grammar : Grammar) (defaults : List (String × Value)) (args : List String) : Outcome :=
  match markAll? grammar.options args with
  | none => .usageError
  | some marked => parseMarked grammar ⟨defaults, [], false, false, false⟩ marked

end SampleTypes.CommandLine
