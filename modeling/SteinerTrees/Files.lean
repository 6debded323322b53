import SteinerTrees.Failure
import SteinerTrees.Text.Blank

/-! # Files

A file system as data: documents by path. Directories are what the paths of documents pass through, those
that were created, the directory in which paths start, those above it, and the root. A path is resolved from
the left: a step leads on only from a directory, and to write means to create what is missing on the way. -/

namespace SteinerTrees

/-- A table with named columns. -/
structure Sheet where
  columns : List String
  rows : List (List String)
  deriving Repr

/-- A file: one with a text in it, one with a table, one with bytes that need not be a text, or one that may
neither be read nor be written. -/
inductive Document where
  | text (content : String)
  | sheet (content : Sheet)
  | bytes (content : List UInt8)
  | locked
  deriving Repr

namespace Path

/-- The parts of a path between its slashes. -/
def parts (path : String) : List String := (path.toList.splitOn '/').map String.ofList

/-- Whether a part of a path leads on: it is not empty and does not stay in place. -/
def isStep (part : String) : Bool := part ≠ "" ∧ part ≠ "."

/-- The steps of a path. -/
def steps (path : String) : List String := (parts path).filter isStep

/-- The place above a place. The root is its own, and outside the starting directory steps up remain. -/
def above (place : List String) : List String :=
  if place = ["/"] then place
  else if place.all (· == "..") then place ++ [".."]
  else place.dropLast

/-- The place to which a step leads. -/
def follow (place : List String) (step : String) : List String :=
  if step = ".." then above place else place ++ [step]

/-- The place where a path starts. -/
def start (path : String) : List String := if path.startsWith "/" then ["/"] else []

/-- The place to which a path leads if all directories on its way exist. -/
def place (path : String) : List String := (steps path).foldl follow (start path)

/-- The last part of a path; empty if the path ends with a slash. -/
def baseName (path : String) : String := (parts path).getLastD ""

/-- The part of a path in front of its last slash. -/
def directory (path : String) : String := "/".intercalate (parts path).dropLast

/-- A file name without its last extension; dots at the start of a name open no extension. -/
def stem (name : String) : String :=
  let dots := name.toList.takeWhile (· = '.')
  let body := name.toList.drop dots.length
  let behind := body.reverse.takeWhile (· ≠ '.')
  if behind.length = body.length then name
  else String.ofList (dots ++ body.take (body.length - behind.length - 1))

/-- A path without empty steps and steps in place; the empty path is the directory itself. Two leading
slashes are kept as they are. -/
def normalize (path : String) : String :=
  let leading := path.toList.takeWhile (· = '/')
  let root := if leading.length = 2 then "//" else if leading = [] then "" else "/"
  let joined := root ++ "/".intercalate (steps path)
  if joined = "" then "." else joined

end Path

/-- Documents, each at its place, and the places of directories that were created. -/
structure Files where
  documents : List (List String × Document) := []
  directories : List (List String) := []
  deriving Repr

namespace Files

/-- The files with given texts. -/
def ofTexts (texts : List (String × String)) : Files :=
  { documents := texts.map fun (path, text) => (Path.place path, .text text) }

def document? (files : Files) (place : List String) : Option Document :=
  (files.documents.find? (·.1 == place)).map (·.2)

/-- Whether a place is a directory: the root, one at or above the start, or one that was created or holds
something. -/
def isDirectory (files : Files) (place : List String) : Bool :=
  place == ["/"] || place.all (· == "..") || files.directories.any (place.isPrefixOf ·) ||
    files.documents.any fun entry => place.length < entry.1.length && place.isPrefixOf entry.1

/-- Follows steps from a directory; the last one may lead anywhere. -/
def walk (files : Files) : List String → List String → Option (List String)
  | here, [] => some here
  | here, step :: rest =>
    let next := Path.follow here step
    if rest = [] ∨ files.isDirectory next then walk files next rest else none

/-- The place a path leads to, if there is something. -/
def locate? (files : Files) (path : String) : Option (List String) :=
  if path = "" then none
  else do
    let place ← files.walk (Path.start path) (Path.steps path)
    if files.isDirectory place || (Path.isStep (Path.baseName path) && (files.document? place).isSome) then return place
    else none

def exists? (files : Files) (path : String) : Bool := (files.locate? path).isSome

/-- The document at a path. -/
def at? (files : Files) (path : String) : Option Document := (files.locate? path).bind files.document?

/-- A text with its line ends unified. -/
def unified (content : String) : String := String.ofList (Text.unifyLineEnds content.toList)

/-- The text of a file, with its line ends unified. -/
def read (files : Files) (path : String) : Except Failure String :=
  match files.at? path with
  | some (.text content) => .ok (unified content)
  | some (.sheet _) => .ok ""
  | some (.bytes content) =>
    match Text.Utf8.decode content with
    | .ok points => .ok (unified (Text.ofPoints points))
    | .error fault => .error (.undecodable fault)
  | some .locked => .error (.accessDenied path)
  | none => if files.exists? path then .error (.isDirectory path) else .error (.noSuchFile path)

/-- Follows steps from a directory, and creates one wherever nothing is: a document in the way is a failure
to make the directory at a path. -/
def makeDirectories (files : Files) (path : String) (here : List String) :
    List String → Except Failure Files
  | [] => .ok files
  | step :: rest =>
    let next := Path.follow here step
    if files.isDirectory next then files.makeDirectories path next rest
    else if (files.document? next).isSome then
      .error (if rest = [] then .fileInTheWay path else .notDirectory path)
    else { files with directories := files.directories ++ [next] }.makeDirectories path next rest

/-- Whether a code point can stand in a path. Some lone surrogates can: each stands for a byte. -/
def isEncodable (code : Nat) : Bool := !Text.isSurrogate code || (0xDC80 ≤ code && code ≤ 0xDCFF)

/-- The number of bytes of a code point in a path. -/
def byteCount (code : Nat) : Nat :=
  if code < 0x80 ∨ Text.isSurrogate code then 1 else if code < 0x800 then 2 else if code < 0x10000 then 3 else 4

/-- The number of bytes of a text in a path. -/
def byteSize (text : String) : Nat := (Text.points text).foldl (fun size code => size + byteCount code) 0

/-- Why the system takes no such path: it has a code point without an encoding, with all surrogates behind
it, or a null character, or it is too long as a whole or in one of its parts. -/
def refusal? (path : String) : Option Failure :=
  let points := Text.points path
  let fine := points.takeWhile isEncodable
  match points.drop fine.length with
  | code :: rest => some (.unencodable code fine.length (fine.length + (rest.takeWhile Text.isSurrogate).length))
  | [] =>
    if path.contains '\x00' then some .nullInPath
    else if 4096 ≤ byteSize path ∨ (Path.parts path).any fun part => 255 < byteSize part then some (.nameTooLong path)
    else none

/-- Whether there is a file at a place that may not be written. -/
def isLocked (files : Files) (place : List String) : Bool :=
  match files.document? place with
  | some .locked => true
  | _ => false

/-- Puts a document in place of a file, or at a new path whose directories are created. -/
def write (files : Files) (path : String) (document : Document) : Except Failure Files := do
  if path = "" then throw (.noSuchFile path)
  if let some failure := refusal? path then throw failure
  let way := (Path.parts path).dropLast.filter Path.isStep
  let files ← files.makeDirectories (Path.directory path) (Path.start path) way
  let place := Path.place path
  if files.isDirectory place then throw (.isDirectory path)
  if files.isLocked place then throw (.accessDenied path)
  return { files with documents := files.documents.filter (·.1 != place) ++ [(place, document)] }

end Files

end SteinerTrees
