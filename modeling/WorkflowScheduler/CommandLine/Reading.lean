import WorkflowScheduler.CommandLine.Level

/-!
# Reading a command line

The words of a command line are read from left to right. A value is checked only when the next option
or argument comes, or at the end; a word that fits nowhere is reported before that. The level to which
a command leads is read to its end before the values of the level above are settled.

## Main definitions

* `Progress`: what has been read of a level
* `Invocation`: the commands of a command line with all values
* `read`: reading a command line
-/

namespace WorkflowScheduler.CommandLine

/-- Values by name, in the order in which they were given. -/
abbrev Found := List (String × Given)

/-- A value that was announced. Its text may have been read, but is not checked yet. -/
structure Pending where
  parameter : Parameter
  mayRepeat : Bool
  text : Option String
  deriving DecidableEq, Repr

/-- What has been read of a level, and the arguments that are still to come. -/
structure Progress where
  found : Found
  pending : Option Pending
  arguments : List Parameter
  deriving DecidableEq, Repr

namespace Progress

/-- Nothing has been read of a level. -/
def start (l : Level) : Progress := ⟨[], none, l.arguments⟩

/-- Whether an option waits for its value. -/
def isAwaiting (p : Progress) : Bool :=
  match p.pending with
  | some q => q.text.isNone
  | none => false

/-- Take in a value: it must be there, for most options only once, and be as the rule says. -/
def accept (p : Progress) (q : Pending) : Except UsageFault Progress :=
  match q.text with
  | none => .error .valueRefused
  | some s =>
    if !q.mayRepeat && (p.found.lookup q.parameter.name).isSome then .error .optionRepeated
    else (q.parameter.rule.check s).map fun v =>
      { p with found := p.found ++ [(q.parameter.name, v)] }

/-- **Take in the value that is pending**, if there is one. -/
def settle (p : Progress) : Except UsageFault Progress :=
  match p.pending with
  | none => .ok p
  | some q => accept { p with pending := none } q

/-- Take in an option, with the value that is attached to it or as one that waits for its value. -/
def offer (p : Progress) (o : NamedOption) (value : Option String) : Except UsageFault Progress := do
  let p ← p.settle
  match value with
  | some v => p.accept ⟨o.parameter, o.mayRepeat, some v⟩
  | none => .ok { p with pending := some ⟨o.parameter, o.mayRepeat, none⟩ }

/-- A wish is heard once nothing is pending. -/
def wish (p : Progress) (f : UsageFault) : Except UsageFault Progress := do
  let _ ← p.settle
  .error f

end Progress

/-- What a word looks like. -/
inductive Shape where
  /-- Two hyphens, after which there are arguments only. -/
  | separator
  | long (name : String) (value : Option String)
  | letter (c : Char) (rest : List Char)
  | plain
  deriving DecidableEq, Repr

/-- The shape of a word. A single hyphen is plain. -/
def Shape.ofWord (w : String) : Shape :=
  match w.toList with
  | ['-', '-'] => .separator
  | '-' :: '-' :: cs =>
    let name := String.ofList (cs.takeWhile (· ≠ '='))
    match cs.dropWhile (· ≠ '=') with
    | [] => .long name none
    | _ :: value => .long name (some (String.ofList value))
  | '-' :: c :: cs => .letter c cs
  | _ => .plain

/-- The commands of a command line, with the values of all its levels. -/
structure Invocation where
  path : List String
  found : Found
  deriving DecidableEq, Repr

/-- The level to which help is asked for must exist; `help` itself is the last one of its path. -/
def helpOn : Level → List String → UsageFault
  | _, [] => .helpAsked
  | l, w :: ws =>
    match l.commands.lookup w with
    | some next => helpOn next ws
    | none => if l.isCommand w && ws.isEmpty then .helpAsked else .commandUnknown

/-- Take in an option by name. -/
def longOption (l : Level) (path : List String) (p : Progress) (name : String)
    (value : Option String) : Except UsageFault Progress :=
  match l.option? name with
  | some o => p.offer o value
  | none =>
    if name = "help" then if value.isSome then .error .valueUnneeded else p.wish .helpAsked
    else if name = "version" then
      if value.isSome then .error .valueUnneeded else p.wish (.versionAsked path)
    else .error .argumentUnknown

/-- Take in an option by letter. What follows the letter is its value, perhaps after an equals
sign. -/
def letterOption (l : Level) (path : List String) (p : Progress) (c : Char) (rest : List Char) :
    Except UsageFault Progress :=
  match l.letter? c with
  | some o =>
    p.offer o
      (match rest with
        | [] => none
        | '=' :: value => some (String.ofList value)
        | value => some (String.ofList value))
  | none =>
    if c = 'h' then p.wish .helpAsked
    else if c = 'V' then p.wish (.versionAsked path)
    else .error .argumentUnknown

/-- A word that fits nowhere. After a separator even a command does. -/
def misplaced (l : Level) (onlyArguments : Bool) (w : String) : UsageFault :=
  if l.isLast || onlyArguments && l.isCommand w then .argumentUnknown else .commandUnknown

/-- Take in an argument. -/
def argument (l : Level) (onlyArguments : Bool) (p : Progress) (w : String) :
    Except UsageFault Progress :=
  match p.arguments with
  | [] => .error (misplaced l onlyArguments w)
  | a :: rest => do
    let p ← p.settle
    .ok { p with pending := some ⟨a, false, some w⟩, arguments := rest }

/-- The end of a level without a further command. -/
def finish (l : Level) (p : Progress) : Except UsageFault Found := do
  let p ← p.settle
  let lacks (o : NamedOption) : Bool :=
    o.isRequired && (p.found.lookup o.parameter.name).isNone
  if !l.isLast then .error (if p.found.isEmpty then .nothingGiven else .commandMissing)
  else if !p.arguments.isEmpty || l.options.any lacks then .error .argumentMissing
  else .ok p.found

/-- Read the rest of a level, reached by a path, and the levels after it. -/
def readLevel (l : Level) (path : List String) (onlyArguments : Bool) (p : Progress) :
    List String → Except UsageFault Invocation
  | [] => (finish l p).map fun found => ⟨[], found⟩
  | w :: ws =>
    if onlyArguments then do
      let p ← argument l true p w
      readLevel l path true p ws
    else if !p.isAwaiting && l.isCommand w then
      match l.commands.lookup w with
      | none => .error (helpOn l ws)
      | some next => do
        let inner ← readLevel next (path ++ [w]) false (.start next) ws
        let p ← p.settle
        .ok ⟨w :: inner.path, p.found ++ inner.found⟩
    else
      match Shape.ofWord w with
      | .separator => readLevel l path true p ws
      | .long name value => do
        let p ← longOption l path p name value
        readLevel l path false p ws
      | .letter c rest => do
        let p ← letterOption l path p c rest
        readLevel l path false p ws
      | .plain =>
        match p.pending with
        | some ⟨q, mayRepeat, none⟩ =>
          readLevel l path false { p with pending := some ⟨q, mayRepeat, some w⟩ } ws
        | _ => do
          let p ← argument l false p w
          readLevel l path false p ws

/-- **Read a command line** against its first level. -/
def read (l : Level) (words : List String) : Except UsageFault Invocation :=
  readLevel l [] false (.start l) words

end WorkflowScheduler.CommandLine
