/-!
Files as the command line sees them: texts that can be read and written by path, either of which
can fail. The file system of a machine is one such store; a directory as a value is another, in
which what a command line does can be observed.
-/

namespace LambdaDiagram

namespace CommandLine

/-- Why a file cannot be read or written. -/
inductive FileError where
  | notFound
  | notDirectory
  | isDirectory
  | nameTooLong
  | other (report : String)
deriving DecidableEq, Repr

/-- The report of a file that cannot be read or written. -/
def FileError.message : FileError → String
  | notFound => "No such file or directory (os error 2)"
  | notDirectory => "Not a directory (os error 20)"
  | isDirectory => "Is a directory (os error 21)"
  | nameTooLong => "File name too long (os error 36)"
  | other report => report

/-- A place where files can be read and written. -/
class Files (m : Type → Type) where
  read (path : String) : m (Except FileError String)
  write (path text : String) : m (Except FileError Unit)

/-- A directory that holds nothing but files: their names and texts. -/
structure Directory where
  files : List (String × String)
deriving DecidableEq, Repr

namespace Directory

/-- The text of a file. -/
def get? (d : Directory) (name : String) : Option String := d.files.lookup name

/-- Give a file a text, creating it if need be. -/
def put (d : Directory) (name text : String) : Directory :=
  ⟨(name, text) :: d.files.filter (·.1 ≠ name)⟩

/-- Where a path can stand: in the directory itself, or in one around it, of which nothing is known
but that it is there. -/
inductive Site where
  | inside
  | around
deriving DecidableEq, Repr

/-- What a path leads to from inside a directory. -/
inductive Place where
  /-- The directory itself, or one around it. -/
  | directory
  /-- A name, which need not be taken yet, in one of these directories. -/
  | entry (site : Site) (name : String)
deriving DecidableEq, Repr

/-- The longest name, in bytes. -/
def maxName : Nat := 255

/-- The longest path, in bytes. -/
def maxPath : Nat := 4095

/-- Look a name up; names that are too long are in no directory. -/
def find (d : Directory) (site : Site) (name : String) : Except FileError String :=
  if maxName < name.utf8ByteSize then .error .nameTooLong
  else
    match site, d.get? name with
    | .inside, some text => .ok text
    | _, _ => .error .notFound

/-- Follow the names of a path. A dot stays, two dots lead outwards, and the last name is left to
look up; one before it would have to be a directory, and there is none. -/
def follow (d : Directory) (site : Site) : List String → Except FileError Place
  | [] => .ok .directory
  | "." :: names => d.follow site names
  | ".." :: names => d.follow .around names
  | [name] => .ok (.entry site name)
  | name :: _ :: _ =>
    match d.find site name with
    | .error e => .error e
    | .ok _ => .error .notDirectory

/-- The names of a path, which slashes keep apart; slashes that stand together count once. -/
def names (path : String) : List String :=
  ((path.toList.splitOn '/').filter (· ≠ [])).map String.ofList

/-- What a path leads to from inside a directory, if it leads anywhere. A slash at the front leads
to the outermost directory. -/
def locate (d : Directory) (path : String) : Except FileError Place :=
  if path.isEmpty then .error .notFound
  else if maxPath < path.utf8ByteSize then .error .nameTooLong
  else d.follow (if path.toList.head? = some '/' then .around else .inside) (names path)

/-- A path that ends in a slash asks for a directory. -/
def asksDirectory (path : String) : Bool := path.toList.getLast? = some '/'

/-- Read the file that a path leads to. -/
def read (d : Directory) (path : String) : Except FileError String := do
  match ← d.locate path with
  | .directory => .error .isDirectory
  | .entry site name =>
    let text ← d.find site name
    if asksDirectory path then .error .notDirectory else .ok text

/-- Write the file that a path leads to, which is made if need be; no file can be made around the
directory. -/
def write (d : Directory) (path text : String) : Except FileError Directory := do
  match ← d.locate path with
  | .directory => .error .isDirectory
  | .entry site name =>
    if asksDirectory path then .error .isDirectory
    else if maxName < name.utf8ByteSize then .error .nameTooLong
    else
      match site with
      | .inside => .ok (d.put name text)
      | .around => .error .notFound

/-- A file is no directory, not even for going back from it. -/
example : (Directory.mk [("a", "x")]).read "a/../a" = .error .notDirectory := rfl

/-- All around there are directories. -/
example : (Directory.mk []).read "/../.." = .error .isDirectory := rfl

end Directory

instance : Files (StateM Directory) where
  read path := do return (← get).read path
  write path text := do
    match (← get).write path text with
    | .error e => return .error e
    | .ok d =>
      set d
      return .ok ()

end CommandLine

end LambdaDiagram
