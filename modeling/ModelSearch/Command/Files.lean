/-!
# Files by path

A formula is read from standard input or from the file at a path.  A path is a
sequence of names, each looked up in the directory reached so far; it starts at
the root or at the current directory.  `Files.source` opens a path in a given
collection of files.
-/

namespace ModelSearch.Command

/-- A place a formula may be read from. -/
inductive Source where
  /-- It cannot be opened, for the reason given. -/
  | closed (reason : String)
  /-- It can be opened, but not read. -/
  | unreadable
  | content (bytes : List UInt8)
  deriving Repr, DecidableEq

/-- What a path may lead to. -/
inductive Place where
  | directory
  | file (bytes : List UInt8)
  deriving Repr, DecidableEq

/-- Why a path cannot be opened. -/
inductive OpeningError where
  | absent
  | notDirectory
  | nameTooLong
  deriving Repr, DecidableEq

def OpeningError.message : OpeningError → String
  | .absent => "No such file or directory (os error 2)"
  | .notDirectory => "Not a directory (os error 20)"
  | .nameTooLong => "File name too long (os error 36)"

/-- The parts of a path, which slashes keep apart.  There is always one, and any
may be empty. -/
def pathParts (path : String) : List String :=
  let parts := path.toList.foldr
    (fun character parts =>
      if character = '/' then [] :: parts
      else
        match parts with
        | [] => [[character]]
        | part :: parts => (character :: part) :: parts)
    [[]]
  parts.map String.ofList

/-- A collection of files, each known by the names that lead to it from the root. -/
structure Files where
  place? : List String → Option Place
  /-- Where a path starts that does not start at the root. -/
  current : List String

namespace Files

/-- The most bytes of a name. -/
def nameLimit : Nat := 255

/-- The most bytes of a path. -/
def pathLimit : Nat := 4095

/-- Follows one part of a path.  An empty part stays where it is, as a dot does. -/
def step (files : Files) (reached : List String) (part : String) :
    Except OpeningError (List String) :=
  match files.place? reached with
  | some .directory =>
      if part = "" ∨ part = "." then .ok reached
      else if part = ".." then .ok reached.dropLast
      else if nameLimit < part.utf8ByteSize then .error .nameTooLong
      else if (files.place? (reached ++ [part])).isSome then .ok (reached ++ [part])
      else .error .absent
  | _ => .error .notDirectory

/-- Follows a path. -/
def follow (files : Files) (path : String) : Except OpeningError (List String) :=
  if pathLimit < path.utf8ByteSize then .error .nameTooLong
  else
    let start := if path.startsWith "/" then [] else files.current
    (pathParts path).foldlM files.step start

/-- Opens a path.  A directory can be opened, but not read. -/
def source (files : Files) (path : String) : Source :=
  match files.follow path with
  | .error error => .closed error.message
  | .ok reached =>
      match files.place? reached with
      | some (.file bytes) => .content bytes
      | _ => .unreadable

end Files

end ModelSearch.Command
