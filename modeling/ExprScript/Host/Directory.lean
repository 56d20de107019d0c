/-!
# Reading files by path

A directory holds texts under relative paths. A path is followed step by step: a name leads from a
directory to what it holds, a dot stays, and two dots go up. Outside of the directory there are
others, of which nothing is known but that they are there.
-/
namespace ExprScript

inductive FileFault where
  | notFound
  | notDirectory
  | isDirectory
  | nameTooLong
  | nulInName
  /-- A fault that only the system knows. -/
  | other (message : String)
  deriving DecidableEq, Inhabited

def FileFault.message : FileFault → String
  | .notFound => "No such file or directory (os error 2)"
  | .notDirectory => "Not a directory (os error 20)"
  | .isDirectory => "Is a directory (os error 21)"
  | .nameTooLong => "File name too long (os error 36)"
  | .nulInName => "file name contained an unexpected NUL byte"
  | .other message => message

/-- Files by path from the directory, with slashes between the names. -/
abbrev Directory := List (String × String)

namespace Directory

/-- Where the steps of a path have led to. -/
inductive Target where
  | file (text : String)
  /-- A directory at or below the known one. -/
  | inside (trail : List String)
  /-- A directory elsewhere. Nothing that is in it is known. -/
  | outside
  /-- The directory around everything. -/
  | root

def steps (path : String) : List String := path.splitOn "/"

def at? (files : Directory) (trail : List String) : Option Target :=
  match files.find? fun entry => steps entry.1 = trail with
  | some entry => some (.file entry.2)
  | none =>
    if files.any fun entry => trail.isPrefixOf (steps entry.1) then some (.inside trail) else none

/-- Directories that every system has around everything. -/
def systemNames : List String := ["bin", "dev", "etc", "home", "lib", "opt", "tmp", "usr", "var"]

/-- What a name means in a directory; nothing is found in a file. -/
def enter? (files : Directory) (name : String) : Target → Option Target
  | .inside trail => files.at? (trail ++ [name])
  | .root => if name ∈ systemNames then some .outside else none
  | .outside | .file _ => none

/-- One step upward. The known directory lies in another one. -/
def up : Target → Target
  | .inside trail => if trail.isEmpty then .outside else .inside trail.dropLast
  | target => target

/-- Follows the steps of a path from where earlier ones led to. -/
def follow (files : Directory) : Target → List String → Except FileFault Target
  | target, [] => .ok target
  | .file _, _ :: _ => .error .notDirectory
  | target, step :: rest =>
    if step.isEmpty || step = "." then follow files target rest
    else if step = ".." then follow files (up target) rest
    else if 255 < step.utf8ByteSize then .error .nameTooLong
    else
      match files.enter? step target with
      | some target => follow files target rest
      | none => .error .notFound

def read (files : Directory) (path : String) : Except FileFault String :=
  if path.contains '\x00' then .error .nulInName
  else if path.isEmpty then .error .notFound
  else if 4095 < path.utf8ByteSize then .error .nameTooLong
  else
    match files.follow (if path.startsWith "/" then .root else .inside []) (steps path) with
    | .ok (.file text) => .ok text
    | .ok _ => .error .isDirectory
    | .error fault => .error fault

end Directory
end ExprScript
