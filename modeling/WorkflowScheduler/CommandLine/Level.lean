import WorkflowScheduler.Text.Decimal

/-!
# Levels of a command line

A command line is read level by level. A level has options, which may come in any order, arguments,
which come in theirs and are all required, and commands, each of which leads to the next level.

## Main definitions

* `UsageFault`: why a command line is not carried out, with its exit code
* `ValueRule`, `ValueRule.check`: what a value must be
* `Parameter`, `NamedOption`, `Level`
-/

namespace WorkflowScheduler.CommandLine

/-- Why a command line is not carried out. Two of the reasons are wishes of the user. -/
inductive UsageFault where
  | helpAsked
  /-- The version is asked for, on the level to which the commands lead. -/
  | versionAsked (path : List String)
  /-- There is no command where one is needed, and nothing else either. -/
  | nothingGiven
  /-- There are options, but no command after them. -/
  | commandMissing
  | commandUnknown
  | argumentUnknown
  | argumentMissing
  /-- An option lacks its value, or the value is none of the allowed ones. -/
  | valueRefused
  /-- A value is no number, or out of range. -/
  | valueUnfit
  /-- A value is attached to an option that takes none. -/
  | valueUnneeded
  | optionRepeated
  deriving DecidableEq, Repr

/-- The exit code of a program that was called with a fault. -/
def UsageFault.exitCode : UsageFault → Nat
  | .helpAsked => 0
  | .versionAsked _ => 0
  | _ => 2

/-- A value as it is understood. -/
inductive Given where
  | text (s : String)
  | number (n : Int)
  deriving DecidableEq, Repr

/-- What a value must be. -/
inductive ValueRule where
  | anyText
  | someText
  | oneOf (words : List String)
  | signed (lo hi : Int)
  | unsigned (hi : Nat)
  deriving DecidableEq, Repr

/-- **A value as a rule understands it.** -/
def ValueRule.check (rule : ValueRule) (s : String) : Except UsageFault Given :=
  match rule with
  | .anyText => .ok (.text s)
  | .someText => if s.isEmpty then .error .valueRefused else .ok (.text s)
  | .oneOf words => if words.contains s then .ok (.text s) else .error .valueRefused
  | .signed lo hi =>
    match Text.signed? lo hi s.toList with
    | some n => .ok (.number n)
    | none => .error .valueUnfit
  | .unsigned hi =>
    match Text.unsigned? hi s.toList with
    | some n => .ok (.number n)
    | none => .error .valueUnfit

/-- Something that has a value, by name. -/
structure Parameter where
  name : String
  rule : ValueRule
  deriving DecidableEq, Repr

/-- An option, written `--name` or with a letter, with its value. -/
structure NamedOption where
  parameter : Parameter
  letter : Option Char
  isRequired : Bool
  mayRepeat : Bool
  deriving DecidableEq, Repr

namespace NamedOption

/-- An option that may be left out. -/
def plain (name : String) (rule : ValueRule) : NamedOption :=
  ⟨⟨name, rule⟩, none, false, false⟩

/-- An option that may be left out and has a letter. -/
def lettered (name : String) (letter : Char) (rule : ValueRule) : NamedOption :=
  ⟨⟨name, rule⟩, some letter, false, false⟩

/-- An option that must be there. -/
def required (name : String) (rule : ValueRule) : NamedOption :=
  ⟨⟨name, rule⟩, none, true, false⟩

/-- An option that may be there several times. -/
def repeated (name : String) (rule : ValueRule) : NamedOption :=
  ⟨⟨name, rule⟩, none, false, true⟩

end NamedOption

/-- **One level of a command line.** -/
inductive Level where
  | mk (options : List NamedOption) (arguments : List Parameter) (commands : List (String × Level))

namespace Level

/-- The options of a level. -/
def options : Level → List NamedOption
  | .mk options _ _ => options

/-- The arguments of a level. -/
def arguments : Level → List Parameter
  | .mk _ arguments _ => arguments

/-- The commands that lead on. -/
def commands : Level → List (String × Level)
  | .mk _ _ commands => commands

/-- Whether no command leads on. -/
def isLast (l : Level) : Bool :=
  l.commands.isEmpty

/-- The option with a name. -/
def option? (l : Level) (name : String) : Option NamedOption :=
  l.options.find? fun o => o.parameter.name == name

/-- The option with a letter. -/
def letter? (l : Level) (c : Char) : Option NamedOption :=
  l.options.find? fun o => o.letter == some c

/-- Whether a word is a command here. Where commands lead on, `help` is one. -/
def isCommand (l : Level) (word : String) : Bool :=
  !l.isLast && (word == "help" || (l.commands.lookup word).isSome)

end Level

end WorkflowScheduler.CommandLine
