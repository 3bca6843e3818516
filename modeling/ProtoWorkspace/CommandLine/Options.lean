/-!
# Options and operands

How the words of a command line are read: options by letter (`-x`, several in one word, a value
attached or in the next word) or by name (`--long`, `--long=value`), operands by position, and `--`
as the end of all options. What an option does is given by a grammar.

A value in a word of its own is only looked at when the next option or operand begins, or at the
end, so faults of later words may be found first.
-/

namespace ProtoWorkspace.CommandLine

/-- Why a command line asks for nothing that can be done. -/
inductive Fault where
  | helpWanted
  | versionWanted
  | nothingGiven
  | commandMissing
  | commandUnknown
  | argumentUnknown
  | operandMissing
  /-- An option without its value, or an empty value where a path is wanted. -/
  | valueMissing
  | valueMalformed
  | valueUnwanted
  | repeated
  deriving DecidableEq

/-- What a value does to what has been read so far. -/
abbrev Setter (σ : Type) := String → σ → Except Fault σ

/-- What an option does. -/
inductive Effect (σ : Type) where
  | help
  | version
  | switch (apply : σ → Except Fault σ)
  | valued (apply : Setter σ)

/-- The options, operands and commands that may appear. -/
structure Grammar (σ : Type) where
  letter : Char → Option (Effect σ)
  word : String → Option (Effect σ)
  operands : List (Setter σ)
  commands : List String

/-- What has been read of a command line. -/
structure Progress (σ : Type) where
  options : σ
  /-- The operands that may still come. -/
  operands : List (Setter σ)
  /-- An option or operand that is not done yet, with its value if that has been read. -/
  pending : Option (Setter σ × Option String) := none
  /-- Whether `--` has been read. -/
  operandsOnly : Bool := false

namespace Progress

variable {σ : Type}

/-- Deals with a pending value. -/
def settle (p : Progress σ) : Except Fault (Progress σ) :=
  match p.pending with
  | none => .ok p
  | some (_, none) => .error .valueMissing
  | some (apply, some value) => do
    let options ← apply value p.options
    return { p with options := options, pending := none }

def awaitsValue (p : Progress σ) : Bool :=
  p.pending.any fun (_, value) => value.isNone

def take (p : Progress σ) (effect : Effect σ) : Except Fault (Progress σ) := do
  let p ← p.settle
  match effect with
  | .help => throw .helpWanted
  | .version => throw .versionWanted
  | .switch apply => return { p with options := ← apply p.options }
  | .valued apply => return { p with pending := some (apply, none) }

def takeWith (p : Progress σ) (effect : Effect σ) (value : String) :
    Except Fault (Progress σ) :=
  match effect with
  | .valued apply => do
    let p ← p.settle
    return { p with options := ← apply value p.options }
  | _ => .error .valueUnwanted

def takeLetters (g : Grammar σ) (p : Progress σ) : List Char → Except Fault (Progress σ)
  | [] => .ok p
  | c :: rest =>
    match g.letter c, rest with
    | none, _ => .error .argumentUnknown
    | some (.valued apply), '=' :: value => p.takeWith (.valued apply) (String.ofList value)
    | some (.valued apply), c :: value => p.takeWith (.valued apply) (String.ofList (c :: value))
    | some effect, rest => do takeLetters g (← p.take effect) rest

def takeWord (g : Grammar σ) (p : Progress σ) (word : List Char) : Except Fault (Progress σ) :=
  let (name, value) := word.span (· != '=')
  match g.word (String.ofList name), value with
  | none, _ => .error .argumentUnknown
  | some effect, [] => p.take effect
  | some effect, _ :: value => p.takeWith effect (String.ofList value)

def takeOperand (g : Grammar σ) (p : Progress σ) (word : String) : Except Fault (Progress σ) :=
  match p.operands with
  | apply :: more => do
    let p ← p.settle
    return { p with operands := more, pending := some (apply, some word) }
  | [] =>
    if g.commands.isEmpty ∨ (p.operandsOnly ∧ word ∈ g.commands) then .error .argumentUnknown
    else .error .commandUnknown

def takeArgument (g : Grammar σ) (p : Progress σ) (word : String) :
    Except Fault (Progress σ) :=
  if p.operandsOnly then p.takeOperand g word
  else
    match word.toList with
    | ['-', '-'] => .ok { p with operandsOnly := true }
    | '-' :: '-' :: name => p.takeWord g name
    | '-' :: c :: letters => p.takeLetters g (c :: letters)
    | _ =>
      match p.pending with
      | some (apply, none) => .ok { p with pending := some (apply, some word) }
      | _ => p.takeOperand g word

/-- Reads words up to a command; gives the command and the words behind it as well. -/
def takeAll (g : Grammar σ) (p : Progress σ) :
    List String → Except Fault (Progress σ × Option (String × List String))
  | [] => .ok (p, none)
  | word :: rest =>
    if !p.operandsOnly && !p.awaitsValue && g.commands.contains word then
      .ok (p, some (word, rest))
    else do takeAll g (← p.takeArgument g word) rest

end Progress

def Grammar.read {σ : Type} (g : Grammar σ) (start : σ) (words : List String) :
    Except Fault σ := do
  let (p, _) ← Progress.takeAll g { options := start, operands := g.operands } words
  return (← p.settle).options

end ProtoWorkspace.CommandLine
