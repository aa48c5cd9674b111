import Ferry.File.Error
import Ferry.File.Path

/-!
# File trees

A tree is a map from locations to entries. A location is canonical: the names
on the way from the root, with no link and no dot in it. A path leads to a
location by walking the tree, where links are followed, at most forty of them.
-/

namespace Ferry.File

/-- The names on the way from the root. -/
abbrev Location := List String

inductive Entry where
  | file (content : String)
  | directory
  /-- A symbolic link and the path it stands for. -/
  | link (target : String)
deriving DecidableEq, Repr

structure Tree where
  /-- All entries but the root. -/
  entries : List (Location × Entry) := []
  /-- Where relative paths start. -/
  workingDirectory : Location := []
deriving DecidableEq, Repr, Inhabited

namespace Tree

/-- What is at a location. The root is a directory. -/
def entry? (t : Tree) (l : Location) : Option Entry :=
  if l.isEmpty then some .directory
  else (t.entries.find? fun e => e.1 == l).map (·.2)

def putEntry (l : Location) (e : Entry) : List (Location × Entry) → List (Location × Entry)
  | [] => [(l, e)]
  | (k, d) :: rest => if k = l then (k, e) :: rest else (k, d) :: putEntry l e rest

/-- The tree with an entry at a location, whatever was there before. -/
def put (t : Tree) (l : Location) (e : Entry) : Tree :=
  { t with entries := putEntry l e t.entries }

/-- The tree with directories where there is nothing yet on the way down from a
location. -/
def prepareBelow (t : Tree) (above : Location) : List String → Tree
  | [] => t
  | name :: rest =>
    let l := above ++ [name]
    let t := match t.entry? l with
      | some _ => t
      | none => t.put l .directory
    t.prepareBelow l rest

/-- The tree with directories where there is nothing yet on the way to a location. -/
def prepare (t : Tree) (l : Location) : Tree :=
  t.prepareBelow [] l

/-- Puts an entry at a location below directories. A directory does not replace
what is there. -/
def plant (t : Tree) (l : Location) (e : Entry) : Tree :=
  match e with
  | .directory => t.prepare l
  | e => (t.prepare l.dropLast).put l e

/-- The names in a directory. -/
def children (t : Tree) (l : Location) : List String :=
  t.entries.filterMap fun e =>
    if e.1.dropLast = l then e.1.getLast? else none

/-! ## Walking -/

/-- Where a path leads. -/
inductive Destination where
  /-- Something is there. The path may have asked for a directory by ending in a
  slash where there is none. -/
  | present (l : Location) (asDirectory : Bool)
  /-- The directory is there, and nothing in it has the name. Here, too, the path
  may have asked for a directory. -/
  | absent (parent : Location) (name : String) (asDirectory : Bool)
deriving DecidableEq, Repr

/-- The most bytes a name may have. -/
def maxNameBytes : Nat := 255

/-- A path has fewer bytes than this. -/
def pathBytesLimit : Nat := 4096

/-- The most links that are followed. -/
def maxLinks : Nat := 40

/-- Where a walk from a location starts when the path is absolute. -/
def startOf (base : Location) (path : String) : Location :=
  if isAbsolute path then [] else base

/-- Walks through the pieces of a path from a directory on. A link, unless it is
last and not to be followed, is left to `onLink`, which gets the directory it
is in and the pieces to walk from there. Slashes at the end leave the last name
the last one. -/
def walkPieces (t : Tree) (follow : Bool)
    (onLink : Location → List String → Except FileError Destination) :
    Location → List String → Except FileError Destination
  | at_, [] => .ok (.present at_ false)
  | at_, piece :: rest =>
    if piece = "" || piece = "." then walkPieces t follow onLink at_ rest
    else if piece = ".." then walkPieces t follow onLink at_.dropLast rest
    else if maxNameBytes < piece.utf8ByteSize then .error .nameTooLong
    else match t.entry? (at_ ++ [piece]) with
      | none =>
        if rest.all (· == "") then .ok (.absent at_ piece (!rest.isEmpty))
        else .error .notFound
      | some .directory => walkPieces t follow onLink (at_ ++ [piece]) rest
      | some (.file _) =>
        if rest.all (· == "") then .ok (.present (at_ ++ [piece]) (!rest.isEmpty))
        else .error .notDirectory
      | some (.link target) =>
        if rest.all (· == "") && !follow then .ok (.present (at_ ++ [piece]) (!rest.isEmpty))
        else onLink (startOf at_ target) (pieces target ++ rest)

/-- Walks a path while at most `links` links are met. -/
def walk (t : Tree) (follow : Bool) : (links : Nat) → Location → List String →
    Except FileError Destination
  | 0 => walkPieces t follow fun _ _ => .error .tooManyLinks
  | links + 1 => walkPieces t follow (walk t follow links)

/-- A text that can name something at all. -/
def checkPath (path : String) : Except FileError Unit :=
  if path.toList.contains '\x00' then .error .nulInPath
  else if path.isEmpty then .error .notFound
  else if pathBytesLimit ≤ path.utf8ByteSize then .error .nameTooLong
  else .ok ()

/-- Where a path leads. -/
def resolve (t : Tree) (follow : Bool) (path : String) : Except FileError Destination := do
  checkPath path
  walk t follow maxLinks (startOf t.workingDirectory path) (pieces path)

/-- The location of an existing entry, with all links followed. -/
def canonicalize (t : Tree) (path : String) : Except FileError Location := do
  match ← t.resolve true path with
  | .present l false => .ok l
  | .present _ true => .error .notDirectory
  | .absent .. => .error .notFound

/-- The entry a path leads to. -/
def stat (t : Tree) (path : String) : Except FileError Entry := do
  let l ← t.canonicalize path
  match t.entry? l with
  | some e => .ok e
  | none => .error .notFound

def isDirectory (t : Tree) (path : String) : Bool :=
  match t.stat path with
  | .ok .directory => true
  | _ => false

/-- The names in the directory a path leads to. -/
def readDirectory (t : Tree) (path : String) : Except FileError (List String) := do
  let l ← t.canonicalize path
  match t.entry? l with
  | some .directory => .ok (t.children l)
  | _ => .error .notDirectory

/-- The first of a path and what remains of it, when components are taken off
its end, that exists: is it at or below the location `top`? -/
def existsBelow (t : Tree) (top : Location) : (depth : Nat) → String → Except FileError Bool
  | 0, _ => .ok false
  | depth + 1, path =>
    match t.canonicalize path with
    | .ok l => .ok (top.isPrefixOf l)
    | .error .notFound =>
      match parent? path with
      | some above => existsBelow t top depth above
      | none => .ok false
    | .error e => .error e

/-- The path leads, as far as it exists, to the root or below it. -/
def resolvesWithin (t : Tree) (root path : String) : Except FileError Bool := do
  let top ← t.canonicalize root
  t.existsBelow top ((components path).length + 1) path

/-! ## Writing -/

/-- Makes one directory. -/
def makeDirectory (t : Tree) (path : String) : Except FileError Tree := do
  match ← t.resolve false path with
  | .present .. => .error .alreadyExists
  | .absent parent name _ => .ok (t.put (parent ++ [name]) .directory)

/-- Makes a directory and those above it. A directory that is there already,
even through a link, is as good as made. The tree is handed back also on an
error, since some of the directories may have been made. -/
def makeDirectories : (depth : Nat) → Tree → String → Except FileError Unit × Tree
  | 0, t, _ => (.error .noAncestor, t)
  | depth + 1, t, path =>
    let settle := fun (t : Tree) (e : FileError) =>
      if t.isDirectory path then (.ok (), t) else (.error e, t)
    if path.isEmpty then (.ok (), t)
    else match t.makeDirectory path with
      | .ok t => (.ok (), t)
      | .error .notFound =>
        match parent? path with
        | none => (.error .noAncestor, t)
        | some above =>
          match makeDirectories depth t above with
          | (.error e, t) => (.error e, t)
          | (.ok (), t) =>
            match t.makeDirectory path with
            | .ok t => (.ok (), t)
            | .error e => settle t e
      | .error e => settle t e

/-- Makes all directories of a path. -/
def createAll (t : Tree) (path : String) : Except FileError Unit × Tree :=
  makeDirectories ((components path).length + 1) t path

/-- Opens a file for writing: it is emptied, or made where a path leads that
ends in nothing, also through a link. The answer is its location. -/
def truncate (t : Tree) (path : String) : Except FileError (Location × Tree) := do
  match ← t.resolve true path with
  | .present _ true | .absent _ _ true => .error .isDirectory
  | .present l false =>
    match t.entry? l with
    | some (.file _) => .ok (l, t.put l (.file ""))
    | _ => .error .isDirectory
  | .absent parent name false =>
    let l := parent ++ [name]
    .ok (l, t.put l (.file ""))

/-- What a file holds. -/
def content (t : Tree) (l : Location) : String :=
  match t.entry? l with
  | some (.file s) => s
  | _ => ""

/-- Writes further text to an open file. -/
def append (t : Tree) (l : Location) (text : String) : Tree :=
  t.put l (.file (t.content l ++ text))

/-- The location of a file that is to be copied. -/
def openSource (t : Tree) (path : String) : Except FileError Location := do
  let l ← t.canonicalize path
  match t.entry? l with
  | some (.file _) => .ok l
  | _ => .error .notRegular

/-- Copies a file. The source is opened first, then the target is opened and
thereby emptied, and only then the source is read. -/
def copy (t : Tree) (source target : String) : Except FileError Tree := do
  let l ← t.openSource source
  let (m, t) ← t.truncate target
  .ok (t.append m (t.content l))

/-- Writes an empty file. -/
def writeEmpty (t : Tree) (path : String) : Except FileError Tree := do
  let (_, t) ← t.truncate path
  .ok t

end Tree

end Ferry.File
