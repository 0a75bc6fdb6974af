/-! Files by path. A path is followed name by name, from the working directory or, behind a slash at its
beginning, from the root; each name leads out of a directory. Entries are known by the paths of the places
at which they are, and every directory on the way to an entry is there as well. A path that is itself
known is not followed. -/

namespace Backtrack

inductive Entry where
  | file (bytes : List UInt8)
  | directory
  /-- A file that is always empty, whatever is written to it. -/
  | sink
  | unavailable (reason : String)
deriving DecidableEq, Repr

structure Files where
  entries : List (String × Entry)
deriving DecidableEq, Repr

namespace Files

def notFound : String := "No such file or directory (os error 2)"

def notDirectory : String := "Not a directory (os error 20)"

def isDirectory : String := "Is a directory (os error 21)"

def nameTooLong : String := "File name too long (os error 36)"

def holdsNul : String := "file name contained an unexpected NUL byte"

/-- Bytes that a name can have. -/
def nameLimit : Nat := 255

/-- Bytes that a path can have. -/
def pathLimit : Nat := 4095

/-- A place is given by the names that lead to it from the working directory; behind one `..` for each
directory above that one, or behind a slash for the root. -/
abbrev Place := List String

namespace Place

def root : Place := ["/"]

def parent (place : Place) : Place :=
  if place = root then root
  else if place.all (· = "..") then place ++ [".."]
  else place.dropLast

def path : Place → String
  | [] => "."
  | "/" :: names => "/" ++ "/".intercalate names
  | names => "/".intercalate names

end Place

def known? (files : Files) (path : String) : Option Entry :=
  (files.entries.find? fun entry => entry.1 = path).map Prod.snd

/-- What is at a place. -/
def entryAt (files : Files) (place : Place) : Entry :=
  if place = Place.root ∨ place.all (· = "..") then .directory
  else
    match files.known? place.path with
    | some entry => entry
    | none =>
      if files.entries.any fun entry => entry.1.startsWith (place.path ++ "/") then .directory
      else .unavailable notFound

/-- One name further. Whether something is there is for the next step to find out. -/
def step (files : Files) (here : Place) (name : String) : Except String Place :=
  match files.entryAt here with
  | .unavailable reason => .error reason
  | .directory =>
    if name = "" ∨ name = "." then .ok here
    else if name = ".." then .ok here.parent
    else if nameLimit < name.utf8ByteSize then .error nameTooLong
    else .ok (here ++ [name])
  | _ => .error notDirectory

def walk (files : Files) (here : Place) (names : List String) : Except String Place :=
  names.foldlM files.step here

def start (path : String) : Place :=
  if path.startsWith "/" then Place.root else []

/-- Why a path is refused before it is followed. -/
def objection? (path : String) : Option String :=
  if path.toList.contains '\x00' then some holdsNul
  else if path = "" then some notFound
  else if pathLimit < path.utf8ByteSize then some nameTooLong
  else none

/-- Files whose paths begin in the working directory or at the root and have no `..` in them. -/
def ofList (files : List (String × List UInt8)) : Files :=
  ⟨files.map fun (path, bytes) =>
    (Place.path (start path ++ (path.splitOn "/").filter fun name => name ≠ "" ∧ name ≠ "."), .file bytes)⟩

/-- The place that a path leads to. -/
def resolve (files : Files) (path : String) : Except String Place :=
  if (files.known? path).isSome then .ok [path]
  else
    match objection? path with
    | some reason => .error reason
    | none => files.walk (start path) (path.splitOn "/")

def lookup (files : Files) (path : String) : Entry :=
  match files.resolve path with
  | .ok place => files.entryAt place
  | .error reason => .unavailable reason

/-- An empty file at a place where nothing is known. -/
def create (files : Files) (place : Place) : Files :=
  ⟨(place.path, .file []) :: files.entries⟩

/-- Opens what is at a place to append to it, and creates a file if nothing is there. The answer is the
path by which the file is known from then on. -/
def appendAt (files : Files) (place : Place) : Except String (String × Files) :=
  match files.known? place.path, files.entryAt place with
  | some (.unavailable reason), _ => .error reason
  | _, .directory => .error isDirectory
  | _, .unavailable _ => .ok (place.path, files.create place)
  | _, _ => .ok (place.path, files)

/-- Opens the file called `last` in a directory to append to it. With a slash behind the name, it would have
to be a directory. -/
def appendIn (files : Files) (here : Place) (last : String) (slash : Bool) :
    Except String (String × Files) :=
  match files.entryAt here with
  | .directory =>
    if slash ∨ last = "." ∨ last = ".." then .error isDirectory
    else
      match files.step here last with
      | .ok place => files.appendAt place
      | .error reason => .error reason
  | .unavailable reason => .error reason
  | _ => .error notDirectory

/-- Opens a file to append to it, and creates it if need be. -/
def openAppend (files : Files) (path : String) : Except String (String × Files) :=
  if (files.known? path).isSome then files.appendAt [path]
  else
    match objection? path with
    | some reason => .error reason
    | none =>
      match (path.splitOn "/").reverse.dropWhile (· = "") with
      | [] => .error isDirectory
      | last :: before =>
        match files.walk (start path) before.reverse with
        | .ok here => files.appendIn here last (path.endsWith "/")
        | .error reason => .error reason

end Files

end Backtrack
