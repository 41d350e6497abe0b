import Linkage.Fault
import Linkage.Text.Cutting
import Linkage.Timestamp

namespace Linkage.CommandLine

inductive FileFault where
  | notFound
  | isFolder
  | notFolder
  | alreadyThere
  | nameTooLong
  | nullInPath
  | notText
  | other (reason : String)
  deriving DecidableEq, Repr

def FileFault.message : FileFault → String
  | .notFound => "No such file or directory (os error 2)"
  | .isFolder => "Is a directory (os error 21)"
  | .notFolder => "Not a directory (os error 20)"
  | .alreadyThere => "File exists (os error 17)"
  | .nameTooLong => "File name too long (os error 36)"
  | .nullInPath => "file name contained an unexpected NUL byte"
  | .notText => "stream did not contain valid UTF-8"
  | .other reason => reason

/-- Environment variables, the home folder on record for the user, a clock, files, and how the
reader of texts tells what it cannot read. -/
structure System (m : Type → Type) where
  environment : String → Option String
  accountHome : Option String
  clock : m Timestamp
  exists? : String → m Bool
  isFolder : String → m Bool
  read : String → m (Except FileFault String)
  makeFolder : String → m (Except FileFault Unit)
  write : String → String → m (Except FileFault Unit)
  wording : Json.Wording := .plain

namespace System

variable {m : Type → Type} [Monad m]

def names (path : String) : List String :=
  (Text.splitAtEach '/' path.toList).map String.ofList

/-- The path of names, given last one first. -/
def joined (names : List String) : String := "/".intercalate names.reverse

/-- Lets a folder that cannot be made pass if there is one. -/
def orFolder (s : System m) (path : String) (made : Except FileFault Unit) :
    m (Except FileFault Unit) := do
  match made with
  | .ok () => return .ok ()
  | .error fault => if ← s.isFolder path then return .ok () else return .error fault

/-- Makes a folder and the folders it lies in, if they are missing. The names of its path are given
last one first; those at its end that lead nowhere do not count. -/
def makeFolders (s : System m) : List String → m (Except FileFault Unit)
  | [] => pure (.ok ())
  | name :: outer => do
    let path := joined (name :: outer)
    if name = "" ∨ name = "." then makeFolders s outer
    else
      match ← s.makeFolder path with
      | .error .notFound =>
        match ← makeFolders s outer with
        | .ok () => s.orFolder path (← s.makeFolder path)
        | .error fault => return .error fault
      | made => s.orFolder path made

/-- The names of the folder that a path lies in, last one first. -/
def folderNames (path : String) : List String :=
  ((names path).reverse.dropWhile fun name => name == "" || name == ".").drop 1

/-- Writes a file, in folders that are made if they are missing. -/
def save (s : System m) (path text : String) : m (Except FileFault Unit) := do
  match ← s.makeFolders (folderNames path) with
  | .ok () => s.write path text
  | .error fault => return .error fault

end System

/-! ## The account of the program -/

namespace Account

def lines (s : String) : List (List Char) := Text.splitAtEach '\n' s.toList

/-- The number of the user in the status of a process: the first after the name of its line. -/
def userId? (status : String) : Option String := do
  let line ← (lines status).find? fun l => "Uid:\t".toList.isPrefixOf l
  let number ← (Text.splitAtEach '\t' line)[1]?
  return String.ofList number

/-- The home folder of a user in a list of accounts: the sixth part of the line that has the user's
number as its third part. -/
def homeFolder? (accounts userId : String) : Option String := do
  let parts := (lines accounts).map (Text.splitAtEach ':')
  let account ← parts.find? fun parts => parts[2]? == some userId.toList
  let folder ← account[5]?
  return String.ofList folder

end Account

/-! ## Files as a value -/

/-- A file with its text, or a folder with what it holds by name. -/
inductive FileTree where
  | file (text : String)
  | folder (entries : List (String × FileTree))

namespace FileTree

def child? (name : String) : FileTree → Option FileTree
  | .file _ => none
  | .folder entries => (entries.find? fun e => e.1 == name).map (·.2)

/-- Puts something into a folder, in place of what has the name. -/
def withChild (t : FileTree) (name : String) (new : FileTree) : FileTree :=
  match t with
  | .file s => .file s
  | .folder entries => .folder (Text.Sorted.put name new entries)

def holdsEntries : FileTree → Bool
  | .file _ => false
  | .folder _ => true

/-- The entries that lead from the root to some place, last one first. -/
abbrev Way := List (String × FileTree)

def reached (t : FileTree) : Way → FileTree
  | [] => t
  | (_, last) :: _ => last

def replace (t : FileTree) : Way → FileTree → FileTree
  | [], new => new
  | (name, _) :: outer, new => replace t outer ((t.reached outer).withChild name new)

def nameLimit : Nat := 255

def pathLimit : Nat := 4095

/-- Goes on along names. A dot stays, and two dots go back. -/
def walk (t : FileTree) (way : Way) : List String → Except FileFault Way
  | [] => .ok way
  | name :: rest =>
    if !(t.reached way).holdsEntries then .error .notFolder
    else if name = "" ∨ name = "." then walk t way rest
    else if name = ".." then walk t (way.drop 1) rest
    else if nameLimit < name.utf8ByteSize then .error .nameTooLong
    else
      match (t.reached way).child? name with
      | some child => walk t ((name, child) :: way) rest
      | none => .error .notFound

/-- The names of a path that may be followed. -/
def namesOf (path : String) : Except FileFault (List String) :=
  if path.toList.contains '\x00' then .error .nullInPath
  else if path = "" then .error .notFound
  else if pathLimit < path.utf8ByteSize then .error .nameTooLong
  else .ok (System.names path)

/-- Goes along names that all have to lead to folders. A path with a slash in front begins at the
root, and others in the folder `here`. -/
def walkToFolder (t : FileTree) (here : List String) (path : String) (names : List String) :
    Except FileFault Way := do
  let start ← if path.toList.head? = some '/' then .ok [] else t.walk [] here
  t.walk start (names ++ ["."])

def find (t : FileTree) (here : List String) (path : String) : Except FileFault FileTree := do
  let names ← namesOf path
  let way ← t.walkToFolder here path []
  return t.reached (← t.walk way names)

def has (t : FileTree) (kind : FileTree → Bool) (here : List String) (path : String) : Bool :=
  match t.find here path with
  | .ok found => kind found
  | .error _ => false

def read (t : FileTree) (here : List String) (path : String) : Except FileFault String := do
  match ← t.find here path with
  | .file s => return s
  | .folder _ => .error .isFolder

/-- Puts something new into the folder that a way leads to. The name has to be one that can be
given, and `refusal` says why it cannot be put in place of what has the name. -/
def add (t : FileTree) (way : Way) (name : String) (new : FileTree)
    (refusal : FileTree → Option FileFault) : Except FileFault FileTree :=
  if nameLimit < name.utf8ByteSize then .error .nameTooLong
  else
    match ((t.reached way).child? name).bind refusal with
    | some fault => .error fault
    | none => .ok (t.replace ((name, new) :: way) new)

/-- A name that can be given to something new. -/
def isProper (name : String) : Bool := name != "" && name != "." && name != ".."

def makeFolder (t : FileTree) (here : List String) (path : String) :
    Except FileFault FileTree := do
  let names ← namesOf path
  let way ← t.walkToFolder here path names.dropLast
  match names.getLast?.filter isProper with
  | some name => t.add way name (.folder []) fun _ => some .alreadyThere
  | none => .error .alreadyThere

/-- Writes the file at a path. A path that ends with a slash or with dots is that of a folder. -/
def write (t : FileTree) (here : List String) (path s : String) : Except FileFault FileTree := do
  let names ← namesOf path
  let folder := (names.reverse.dropWhile (· == "")).drop 1
  let way ← t.walkToFolder here path folder.reverse
  match names.getLast?.filter isProper with
  | some name =>
    t.add way name (.file s) fun old => if old.holdsEntries then some .isFolder else none
  | none => .error .isFolder

def change (f : FileTree → Except FileFault FileTree) :
    StateM FileTree (Except FileFault Unit) := do
  match f (← get) with
  | .ok t => set t; return .ok ()
  | .error fault => return .error fault

/-- The system of a tree, with a standing clock. -/
def system (environment : String → Option String) (accountHome : Option String) (now : Timestamp)
    (here : List String) : System (StateM FileTree) where
  environment := environment
  accountHome := accountHome
  clock := pure now
  exists? path := do return (← get).has (fun _ => true) here path
  isFolder path := do return (← get).has holdsEntries here path
  read path := do return (← get).read here path
  makeFolder path := change fun t => t.makeFolder here path
  write path s := change fun t => t.write here path s

end FileTree

end Linkage.CommandLine
