import ProtoWorkspace.ModuleFiles

/-!
# Dependencies

A module depends on the modules whose files its own files import, and on what those depend on. What
no import leads to is no dependency. The search goes breadth-first through the modules of a set and
enters each once, so it ends on every set, also on one with cycles.
-/

namespace ProtoWorkspace.ModuleSet

variable {m : Type → Type} [Monad m] [MonadExcept Error m]

/-- The modules among the given ones with a Protobuf file at a path. -/
def providersAmong (io : Access m) (path : String) : List Module → m (List Module)
  | [] => pure []
  | x :: rest => do
    let hasIt ← x.hasProto io path
    let others ← providersAmong io path rest
    return if hasIt then x :: others else others

/-- The module of a set with the Protobuf file at a path. No two modules may have it. -/
def provider (s : ModuleSet) (io : Access m) (path : String) : m (Option Module) :=
  io.remember (.provider s.number path) do
    match ← providersAmong io path s.modules with
    | [] => return none
    | [x] => return some x
    | several => throw (.multipleModules path (several.map Module.description))

/-- What stands for the file of a module at a path when its imports are kept. -/
def fileMark (x : Module) (path : String) : String :=
  x.identity ++ "\x00" ++ path

def importsOf (s : ModuleSet) (io : Access m) (x : Module) (path : String) : m (List String) :=
  io.remember (.imports s.number (fileMark x path)) do
    let data ← x.read io path
    if let some parser := s.parser.number then io.note (.parsedFile parser path)
    MonadExcept.ofExcept (s.parser.parse path data)

/-- The other module to which an import in the file at `path` leads. An import that no module
provides must be well known. -/
def importTarget (s : ModuleSet) (io : Access m) (x : Module) (path imported : String) :
    m (Option Module) := do
  match ← s.provider io imported with
  | some y => return if y.identity = x.identity then none else some y
  | none =>
    if imported ∈ Imports.wellKnown then
      io.note (.metWellKnown path imported)
      return none
    else throw (.importNotFound x.description path imported)

/-- The identities of the modules to which the imports in the file at `path` lead. -/
def importedByFile (s : ModuleSet) (io : Access m) (x : Module) (path : String) :
    m (List String) := do
  let targets ← (← s.importsOf io x path).mapM (s.importTarget io x path)
  return (targets.filterMap (·)).map Module.identity

/-- The identities of the other modules that the files of a module import, as often as they do. -/
def importedIdentities (s : ModuleSet) (io : Access m) (x : Module) : m (List String) := do
  return (← (← x.protoPaths io).mapM (s.importedByFile io x)).flatten

/-- The other modules that the files of a module import, in the order of the set. -/
def imported (s : ModuleSet) (io : Access m) (x : Module) : m (List Module) := do
  return s.restrict (← s.importedIdentities io x)

def isAmong (x : Module) (modules : List Module) : Bool :=
  modules.any (·.identity == x.identity)

/-- The modules of a list with one of the given identities, and the others. -/
def divide (modules : List Module) (identities : List String) : List Module × List Module :=
  modules.partition fun x => identities.contains x.identity

/-- Every module of a list is on one side of its division. -/
theorem length_divide (modules : List Module) (identities : List String) :
    (divide modules identities).1.length + (divide modules identities).2.length =
      modules.length := by
  rw [divide, List.partition_eq_filter_filter]
  induction modules with
  | nil => rfl
  | cons x rest ih =>
    cases h : identities.contains x.identity <;> simp_all <;> omega

/-- Follows the imports of the modules in `queue`. Those of the `unvisited` modules that are found
join the queue; the result is `reached` and all that were found. -/
def reach (s : ModuleSet) (io : Access m) (queue unvisited reached : List Module) :
    m (List Module) :=
  match queue with
  | [] => pure reached
  | x :: queue => do
    let found ← s.importedIdentities io x
    let division := divide unvisited found
    s.reach io (queue ++ division.1) division.2 (reached ++ division.1)
termination_by unvisited.length + queue.length
decreasing_by
  have := length_divide unvisited found
  simp only [List.length_append, List.length_cons]
  omega

/-- The dependencies of a module, sorted by identity. -/
def dependencies (s : ModuleSet) (io : Access m) (x : Module) : m (List Dependency) :=
  io.remember (.dependencies s.number x.identity) do
    let direct ← s.imported io x
    let unvisited := s.modules.filter (!isAmong · (x :: direct))
    let reached ← s.reach io direct unvisited direct
    return (reached.mergeSort fun a b => decide (a.identity ≤ b.identity)).map fun y =>
      ⟨y, isAmong y direct⟩

/-- The dependencies whose files a module imports itself. -/
def directDependencies (s : ModuleSet) (io : Access m) (x : Module) : m (List Dependency) :=
  List.filter Dependency.isDirect <$> s.dependencies io x

end ProtoWorkspace.ModuleSet
