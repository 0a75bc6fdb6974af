/-! The arguments of the command line. Options that concern the whole program may stand before or behind
the name of the command; behind it they win. An option takes its value from the same argument, behind an
equals sign, or from the next one, which must not look like an option. Behind `--` nothing is an option. -/

namespace Backtrack.CommandLine

/-- What to do, with the file to do it to. -/
inductive Task where
  | inspect (file : String) (lookahead : Nat) (caseFold : Bool) (limit : Option Nat)
  | find (file word : String) (caseFold : Bool)
deriving DecidableEq, Repr

namespace Task

def file : Task → String
  | .inspect file .. => file
  | .find file .. => file

def caseFold : Task → Bool
  | .inspect _ _ caseFold _ => caseFold
  | .find _ _ caseFold => caseFold

end Task

structure Invocation where
  config : Option String
  logLevel : Option String
  layout : String
  logFile : Option String
  task : Task
deriving DecidableEq, Repr

inductive Request where
  | run (invocation : Invocation)
  | help
  | version
  /-- The arguments make no sense. -/
  | usage
deriving DecidableEq, Repr

/-- Where an argument stands: before the command, or behind it. -/
inductive Place where
  | program
  | inspect
  | find
deriving DecidableEq, Repr

inductive Slot where
  | config
  | logLevel
  | layout
  | logFile
  | lookahead
  | limit
deriving DecidableEq, Repr

inductive Switch where
  | caseFold
  | help
  | version
deriving DecidableEq, Repr

/-- The option that takes a value under the given name at the given place. -/
def slot? (place : Place) (name : String) : Option Slot :=
  if name = "config" then some .config
  else if name = "log-level" then some .logLevel
  else if name = "log-format" then some .layout
  else if name = "log-file" then some .logFile
  else if name = "lookahead" ∧ place = .inspect then some .lookahead
  else if name = "limit" ∧ place = .inspect then some .limit
  else none

def switch? (place : Place) (name : String) : Option Switch :=
  if name = "help" then some .help
  else if name = "version" ∧ place = .program then some .version
  else if name = "case-fold" ∧ place ≠ .program then some .caseFold
  else none

/-- A natural number of 64 bits, perhaps with a plus sign. -/
def natural? (text : String) : Option Nat :=
  let digits := match text.toList with
    | '+' :: rest => rest
    | chars => chars
  if digits.isEmpty ∨ digits.any fun c => c < '0' ∨ '9' < c then none
  else
    let n := digits.foldl (fun n d => n * 10 + (d.toNat - '0'.toNat)) 0
    if n < Nat.pow 2 64 then some n else none

/-- What has been given at one place. -/
structure Given where
  config : Option String
  logLevel : Option String
  layout : Option String
  logFile : Option String
  lookahead : Option Nat
  limit : Option Nat
  caseFold : Bool
  positional : List String
deriving DecidableEq, Repr

namespace Given

def nothing : Given :=
  ⟨none, none, none, none, none, none, false, []⟩

/-- Puts a value where there is none yet. -/
def once {α : Type} (old : Option α) (new : Option α) : Option (Option α) :=
  match old, new with
  | none, some a => some (some a)
  | _, _ => none

def path? (value : String) : Option String :=
  if value = "" then none else some value

/-- Nothing if the option has a value already, or the value is none for it. -/
def set (g : Given) (slot : Slot) (value : String) : Option Given :=
  match slot with
  | .config => (once g.config (path? value)).map fun v => { g with config := v }
  | .logLevel => (once g.logLevel (some value)).map fun v => { g with logLevel := v }
  | .layout => (once g.layout (some value)).map fun v => { g with layout := v }
  | .logFile => (once g.logFile (path? value)).map fun v => { g with logFile := v }
  | .lookahead => (once g.lookahead (natural? value)).map fun v => { g with lookahead := v }
  | .limit => (once g.limit (natural? value)).map fun v => { g with limit := v }

/-- Adds a positional argument, of which the first is a path and there are as many as the command takes. -/
def add (g : Given) (place : Place) (value : String) : Option Given :=
  match place, g.positional with
  | .program, _ => none
  | _, [] => if value = "" then none else some { g with positional := [value] }
  | .find, [file] => some { g with positional := [file, value] }
  | _, _ => none

/-- What is asked for when all arguments have been seen. -/
def request (g program : Given) (place : Place) : Request :=
  let invocation (task : Task) : Request :=
    .run ⟨g.config <|> program.config, g.logLevel <|> program.logLevel,
      (g.layout <|> program.layout).getD "compact", g.logFile <|> program.logFile, task⟩
  match place, g.positional with
  | .inspect, [file] => invocation (.inspect file (g.lookahead.getD 0) g.caseFold g.limit)
  | .find, [file, word] => invocation (.find file word g.caseFold)
  | _, _ => .usage

end Given

inductive Shape where
  | plain
  | escape
  | long (name : String) (value : Option String)
  | short (letters : List Char)
deriving DecidableEq, Repr

/-- How an argument looks before it is known what it means. -/
def shape (arg : String) : Shape :=
  match arg.toList with
  | ['-', '-'] => .escape
  | '-' :: '-' :: rest =>
    let name := String.ofList (rest.takeWhile (· ≠ '='))
    match rest.dropWhile (· ≠ '=') with
    | [] => .long name none
    | _ :: value => .long name (some (String.ofList value))
  | '-' :: c :: rest => .short (c :: rest)
  | _ => .plain

/-- The commands that help is asked for by name. -/
def helpRequest : List String → Request
  | [] => .help
  | ["inspect"] => .help
  | ["find"] => .help
  | ["help"] => .help
  | _ => .usage

/-- Reads the arguments from left to right. `program` is what was given before the command, `g` what has
been given at the present place; `literal` says that `--` has been seen. -/
def readArguments (program : Given) (place : Place) (g : Given) (literal : Bool) : List String → Request
  | [] => g.request program place
  | arg :: rest =>
    match if literal then .plain else shape arg with
    | .escape => readArguments program place g true rest
    | .long name value =>
      match slot? place name, switch? place name, value with
      | some slot, _, some value =>
        match g.set slot value with
        | some g => readArguments program place g literal rest
        | none => .usage
      | some slot, _, none =>
        match rest with
        | [] => .usage
        | value :: rest =>
          match shape value, g.set slot value with
          | .plain, some g => readArguments program place g literal rest
          | _, _ => .usage
      | none, some .help, none => .help
      | none, some .version, none => .version
      | none, some .caseFold, none =>
        if g.caseFold then .usage else readArguments program place { g with caseFold := true } literal rest
      | _, _, _ => .usage
    | .short letters =>
      match letters.head?, place with
      | some 'h', _ => .help
      | some 'V', .program => .version
      | _, _ => .usage
    | .plain =>
      if place = .program ∧ ¬ literal then
        if arg = "inspect" then readArguments g .inspect .nothing false rest
        else if arg = "find" then readArguments g .find .nothing false rest
        else if arg = "help" then helpRequest rest
        else .usage
      else
        match g.add place arg with
        | some g => readArguments program place g literal rest
        | none => .usage

def Request.ofArguments (args : List String) : Request :=
  readArguments .nothing .program .nothing false args

end Backtrack.CommandLine
