import LintPatrol.Number.Integer
import LintPatrol.Task.Moderation

/-!
# LintPatrol.Cli.Grammar

The words of a command line.  Commands are nested: the names of the commands
taken so far say which words may follow.  An *option* is given by name and
has a value, an *operand* by its place; the flags and the options for the
settings may follow every command.

`read` goes through the words from left to right.  The value of an option or
operand is looked at when the next one begins, and a command is read to its
end before the last value in front of it is looked at; so it is settled which
of an error and a request for help counts.
-/

namespace LintPatrol.Cli

/-! ## What may follow -/

/-- What a value may be. -/
inductive Operand where
  | text
  | path
  | count
  | verdict
deriving Repr, DecidableEq

/-- May the text stand for such a value? -/
def Operand.admits : Operand → String → Bool
  | text, _ => true
  | path, s => !s.isEmpty
  | count, s => (Number.readUInt64 s.toList).toOption.isSome
  | verdict, s => (Verdict.ofName? s).isSome

/-- Something that is given a value. -/
structure Parameter where
  name : String
  operand : Operand
  isRequired : Bool := false
deriving Repr, DecidableEq

/-- What may follow the commands taken so far: further commands, one of which has to
follow if there are any, options, and operands, all of which have to follow. -/
structure Level where
  commands : List String := []
  options : List Parameter := []
  operands : List Parameter := []
deriving Repr

/-- What may follow the commands taken so far. -/
def levelAt : List String → Level
  | [] =>
    { commands :=
        ["init", "scheduler", "worker", "repo", "linter", "highlights", "tasks", "stats"] }
  | ["repo"] | ["linter"] => { commands := ["add", "list", "remove"] }
  | ["highlights"] => { commands := ["list", "moderate"] }
  | ["repo", "add"] =>
    { options := [⟨"branch", .text, false⟩]
      operands := [⟨"id", .text, true⟩, ⟨"url", .text, true⟩] }
  | ["linter", "add"] =>
    { options := ["branch", "image", "digest"].map fun name => ⟨name, .text, false⟩
      operands := [⟨"id", .text, true⟩, ⟨"url", .text, true⟩] }
  | ["repo", "remove"] | ["linter", "remove"] => { operands := [⟨"id", .text, true⟩] }
  | ["highlights", "list"] =>
    { options :=
        (["task", "linter", "repo"].map fun name => ⟨name, .text, false⟩) ++
          [⟨"status", .verdict, false⟩] }
  | ["highlights", "moderate"] =>
    { options :=
        [⟨"status", .verdict, true⟩, ⟨"moderator", .text, false⟩, ⟨"comment", .text, false⟩]
      operands :=
        [⟨"task", .text, true⟩, ⟨"path", .text, true⟩, ⟨"start", .count, true⟩,
          ⟨"end", .count, true⟩] }
  | ["tasks"] => { options := [⟨"status", .text, false⟩, ⟨"limit", .count, false⟩] }
  | _ => {}

/-- The options that may follow every command, with the variables of the
environment that stand in for them. -/
def sharedOptions : List (Parameter × String) :=
  [(⟨"config", .path, false⟩, "BUGHUNT_CONFIG"), (⟨"db", .path, false⟩, "BUGHUNT_DB")]

def Level.option? (l : Level) (name : String) : Option Parameter :=
  (sharedOptions.map (·.1) ++ l.options).find? (·.name = name)

/-- A flag. -/
inductive Flag where
  | verbose
  | logJson
  | help
  | version
deriving Repr, DecidableEq

/-- The flag of a long name; the version can be asked for in front of all
commands only. -/
def Flag.ofName? (path : List String) : String → Option Flag
  | "verbose" => some verbose
  | "log-json" => some logJson
  | "help" => some help
  | "version" => if path.isEmpty then some version else none
  | _ => none

/-- The flag of a letter. -/
def Flag.ofLetter? (path : List String) : Char → Option Flag
  | 'v' => some verbose
  | 'h' => some help
  | 'V' => if path.isEmpty then some version else none
  | _ => none

/-! ## Reading -/

/-- Why words are no command to be carried out. -/
inductive Stop where
  | usage
  | help
  | version
deriving Repr, DecidableEq

/-- The words that have been understood: the commands, and the values in the
order given. -/
structure Given where
  path : List String
  values : List (String × String)
deriving Repr, DecidableEq

def Given.value? (g : Given) (name : String) : Option String :=
  (g.values.reverse.find? (·.1 = name)).map (·.2)

/-- How far the words after a command have been read. -/
structure Reading where
  path : List String
  values : List (String × String)
  flags : List Flag
  position : Nat
  /-- What was given last, and its value unless that is to follow. -/
  latest : Option (Parameter × Option String)
  /-- Is everything that follows an operand? -/
  isVerbatim : Bool
deriving Repr

namespace Reading

def start (path : List String) : Reading := ⟨path, [], [], 0, none, false⟩

def level (r : Reading) : Level := levelAt r.path

/-- Is the value of an option to follow? -/
def isWaiting (r : Reading) : Bool :=
  match r.latest with
  | some (_, none) => true
  | _ => false

/-- Takes a value, which must be admitted and the first one of its name. -/
def take (p : Parameter) (value : String) (r : Reading) : Except Stop Reading :=
  if (r.values.any (·.1 = p.name)) || !p.operand.admits value then .error .usage
  else .ok { r with values := r.values ++ [(p.name, value)] }

/-- Looks at what was given last. -/
def settle (r : Reading) : Except Stop Reading :=
  match r.latest with
  | none => .ok r
  | some (_, none) => .error .usage
  | some (p, some value) => take p value { r with latest := none }

/-- Begins an option or operand. -/
def begin (p : Parameter) (value : Option String) (r : Reading) : Except Stop Reading := do
  return { ← r.settle with latest := some (p, value) }

/-- Takes a flag, which must be the first of its kind. -/
def flag (f : Flag) (r : Reading) : Except Stop Reading := do
  let r ← r.settle
  match f with
  | .help => throw .help
  | .version => throw .version
  | _ => if r.flags.contains f then throw .usage else return { r with flags := f :: r.flags }

/-- Takes an operand. -/
def operand (value : String) (r : Reading) : Except Stop Reading :=
  match r.level.operands[r.position]? with
  | none => .error .usage
  | some p => do return { ← r.begin p (some value) with position := r.position + 1 }

/-- Takes a word that starts with two dashes: a flag, or an option with its
value behind a `=` or in the next word. -/
def long (word : List Char) (r : Reading) : Except Stop Reading :=
  let name := String.ofList (word.takeWhile (· ≠ '='))
  let value? :=
    match word.dropWhile (· ≠ '=') with
    | [] => none
    | _ :: cs => some (String.ofList cs)
  match r.level.option? name, Flag.ofName? r.path name, value? with
  | some p, _, some value => do take p value (← r.settle)
  | some p, _, none => r.begin p none
  | none, some f, none => r.flag f
  | _, _, _ => .error .usage

/-- Takes the letters behind one dash. -/
def letters (cs : List Char) (r : Reading) : Except Stop Reading :=
  cs.foldlM
    (fun r c =>
      match Flag.ofLetter? r.path c with
      | some f => r.flag f
      | none => .error .usage)
    r

/-- Takes a word that is no command. -/
def word (w : String) (r : Reading) : Except Stop Reading :=
  if r.isVerbatim then r.operand w
  else
    match w.toList with
    | ['-', '-'] => .ok { r with isVerbatim := true }
    | '-' :: '-' :: cs => r.long cs
    | '-' :: c :: cs => r.letters (c :: cs)
    | _ =>
      match r.latest with
      | some (p, none) => .ok { r with latest := some (p, some w) }
      | _ => r.operand w

/-- May variables of the environment stand in for the options that have not
been given? -/
def admitsEnvironment (environment : List (String × String)) (r : Reading) : Bool :=
  sharedOptions.all fun (p, variable_) =>
    (r.values.any (·.1 = p.name)) ||
      (environment.all fun (name, value) => name ≠ variable_ || p.operand.admits value)

/-- The values, once all words that belong to a command have been read. -/
def finish (environment : List (String × String)) (r : Reading) :
    Except Stop (List (String × String)) := do
  let r ← r.settle
  if r.admitsEnvironment environment then return r.values else throw .usage

/-- Is everything there that has to be?  An image comes with its digest and a
digest with its image. -/
def isComplete (r : Reading) (values : List (String × String)) : Bool :=
  let has (name : String) : Bool := values.any (·.1 = name)
  r.level.commands.isEmpty &&
    (r.level.operands ++ r.level.options).all (fun p => !p.isRequired || has p.name) &&
      (has "image" == has "digest")

end Reading

/-- Can help be given on the command that those words name?  Where commands
follow, `help` is one of them. -/
def canDescribe (path : List String) : List String → Bool
  | [] => true
  | name :: names =>
    if (levelAt path).commands.contains name then canDescribe (path ++ [name]) names
    else name = "help" && !(levelAt path).commands.isEmpty && names.isEmpty

/-- Reads the words after a command. -/
def readFrom (environment : List (String × String)) (r : Reading) :
    List String → Except Stop Given
  | [] => do
    let values ← r.finish environment
    if r.isComplete values then return ⟨r.path, values⟩ else throw .usage
  | w :: ws =>
    if !r.isVerbatim && !r.isWaiting && r.level.commands.contains w then do
      let inner ← readFrom environment (.start (r.path ++ [w])) ws
      return ⟨inner.path, (← r.finish environment) ++ inner.values⟩
    else if !r.isVerbatim && !r.isWaiting && w = "help" && !r.level.commands.isEmpty then
      .error (if canDescribe r.path ws then .help else .usage)
    else do readFrom environment (← r.word w) ws

/-- Reads a command line. -/
def read (environment : List (String × String)) (words : List String) : Except Stop Given :=
  readFrom environment (.start []) words

end LintPatrol.Cli
