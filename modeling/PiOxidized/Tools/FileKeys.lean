/-
# Queue keys of files

The key of a file mutation is computed from the file system before the call is registered.  The path
is made absolute and normalized without looking at the file system, and then every link in it is
resolved.  Where nothing is there yet, the normalized path is the key.

A closure that runs can create files and directories, so a later call may find what an earlier one
did not.  Resolving a path is one step, and so is creating a file or a directory.
-/

import PiOxidized.Tools.MutationQueue

namespace PiOxidized.Tools

open Math

/-- A component of a path as it is spelled. -/
inductive Component
  | curDir
  | parentDir
  | normal (name : String)
  deriving DecidableEq

/-- The names from the root to a place. -/
abbrev Path := List String

structure Spelling where
  absolute : Bool
  components : List Component
  deriving DecidableEq

def Component.push (out : Path) : Component → Path
  | .curDir => out
  -- The root has no parent.
  | .parentDir => out.dropLast
  | .normal name => out ++ [name]

def lexicalNormalize (components : List Component) : Path := components.foldl Component.push []

def resolveLexicallyAbsolute (cwd : Path) (path : Spelling) : Path :=
  if path.absolute then lexicalNormalize path.components
  else lexicalNormalize (cwd.map .normal ++ path.components)

inductive Node
  | directory
  | file
  | link (target : Spelling)
  deriving DecidableEq

def Node.isLink : Node → Bool
  | .link _ => true
  | .directory | .file => false

/-- What is at each place below the root, and how many links a lookup follows at most. -/
structure FileSystem where
  node : Path → Option Node
  maxLinks : Nat

inductive ErrorKind
  | notFound
  | notADirectory
  | filesystemLoop
  deriving DecidableEq

namespace FileSystem

/-- Look up the components of a path one after another, from a directory on.  At a link the rest is
looked up from where it leads. -/
def walk (files : FileSystem) (follow : Path → List Component → Except ErrorKind Path) :
    Path → List Component → Except ErrorKind Path
  | here, [] => .ok here
  | here, .curDir :: rest => walk files follow here rest
  | here, .parentDir :: rest => walk files follow here.dropLast rest
  | here, .normal name :: rest =>
    match files.node (here ++ [name]) with
    | none => .error .notFound
    | some .directory => walk files follow (here ++ [name]) rest
    | some .file => if rest = [] then .ok (here ++ [name]) else .error .notADirectory
    | some (.link target) =>
      follow (if target.absolute then [] else here) (target.components ++ rest)

/-- Look up a path with at most so many links. -/
def walkWithin (files : FileSystem) : Nat → Path → List Component → Except ErrorKind Path
  | 0 => files.walk fun _ _ => .error .filesystemLoop
  | links + 1 => files.walk (files.walkWithin links)

/-- The place of a path, with every link in it resolved. -/
def canonicalize (files : FileSystem) (path : Path) : Except ErrorKind Path :=
  files.walkWithin files.maxLinks [] (path.map .normal)

def found (files : FileSystem) (path : Path) : Bool := (files.canonicalize path).toBool

/-- Everything that is missing is a directory. -/
def completed (files : FileSystem) : FileSystem :=
  { files with node := fun path => some ((files.node path).getD .directory) }

/-- The place of the file at a path, also of one that can be created there. -/
def locate (files : FileSystem) (path : Path) : Option Path :=
  (files.completed.canonicalize path).toOption

/-- A place that is free and whose parent is a directory. -/
def canCreate (files : FileSystem) (location : Path) : Bool :=
  decide (files.node location = none) && decide (location ≠ []) &&
    (location.dropLast.isEmpty || decide (files.node location.dropLast = some .directory))

def create (files : FileSystem) (location : Path) (node : Node) : FileSystem :=
  { files with node := Function.update files.node location (some node) }

end FileSystem

inductive MutationQueueError
  | resolveKey (path : Spelling) (source : ErrorKind)
  deriving DecidableEq

def mutationQueueKey (files : FileSystem) (cwd : Path) (filePath : Spelling) :
    Except MutationQueueError Path :=
  let resolved := resolveLexicallyAbsolute cwd filePath
  match files.canonicalize resolved with
  | .ok canonical => .ok canonical
  | .error .notFound => .ok resolved
  | .error .notADirectory => .ok resolved
  | .error source => .error (.resolveKey filePath source)

/-- What a call mutates, and whether it was there when its key was computed. -/
structure Target where
  filePath : Spelling
  existed : Bool

/-- The calls with the file system they mutate. -/
structure Mutations where
  queue : Queue Path
  files : FileSystem
  cwd : Path
  targets : Nat → Target

inductive MutationEvent
  | call (filePath : Spelling)
  | resolve (call : Nat)
  | advance (event : QueueEvent Path)
  | create (call : Nat) (location : Path) (node : Node)

namespace Mutations

/-- The absolute path a call mutates. -/
def path (s : Mutations) (i : Nat) : Path := resolveLexicallyAbsolute s.cwd (s.targets i).filePath

/-- The place of the file that a call mutates. -/
def locate (s : Mutations) (i : Nat) : Option Path := s.files.locate (s.path i)

def setTarget (s : Mutations) (i : Nat) (target : Target) : Mutations :=
  { s with targets := Function.update s.targets i target }

def step (s : Mutations) : MutationEvent → Option Mutations
  | .call filePath =>
    (s.queue.step .call).map fun queue =>
      { s.setTarget s.queue.calls.length ⟨filePath, false⟩ with queue := queue }
  | .resolve i =>
    match mutationQueueKey s.files s.cwd (s.targets i).filePath with
    | .ok key =>
      (s.queue.step (.resolve i key)).map fun queue =>
        { s.setTarget i ⟨(s.targets i).filePath, s.files.found (s.path i)⟩ with queue := queue }
    | .error _ => (s.queue.step (.fail i)).map fun queue => { s with queue := queue }
  | .advance .call => none
  | .advance (.resolve _ _) => none
  | .advance event => (s.queue.step event).map fun queue => { s with queue := queue }
  | .create i location node =>
    match s.queue.calls[i]? with
    | some (.held .running _ _) =>
      if s.files.canCreate location && !node.isLink then
        some { s with files := s.files.create location node }
      else none
    | _ => none

/-- The mutations of any file system, from any working directory, from the start on. -/
def machine : Machine Mutations MutationEvent where
  start s := s.queue = Queue.empty
  step := step

end Mutations

end PiOxidized.Tools
