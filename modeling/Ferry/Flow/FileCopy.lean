import Ferry.Completion
import Ferry.Flow.Outcome

/-!
# Moving data by copying a file

A request names a file below one root and a directory below another. Before
anything is copied, both are followed through all links, and a path that leads
out of its root is refused. The copy itself runs in the background; when the
file is all there, a marker is put beside it.
-/

namespace Ferry

open File

/-- Where files may be copied from and to. -/
structure FileFlow where
  sourceRoot : String
  destinationRoot : String
deriving DecidableEq, Repr, Inhabited

/-- A copy that was found to be harmless. -/
structure FileFlow.Copy where
  source : String
  directory : String
  /-- The request that the data is moved for. -/
  correlationId : String
deriving DecidableEq, Repr, Inhabited

namespace FileFlow

def controllerName : String := "fs-copy"

/-- The file that a request wants to have copied. -/
def sourceOf? (r : TransferRequest) : Option String :=
  r.properties.get? "source_path"

def canHandle (r : TransferRequest) : Bool :=
  r.destination.kind == localDirectory && (sourceOf? r).isSome

/-- Refuses a path that does not lead to its root or below. -/
def checkWithin (t : Tree) (root path what : String) : Except FlowOutcome Unit :=
  match t.resolvesWithin root path with
  | .ok true => .ok ()
  | .ok false => .error (.fatal (what ++ " " ++ path ++ " resolves outside " ++ root))
  | .error e => .error (.retry ("cannot resolve " ++ path ++ ": " ++ e.message))

/-- Refuses a path that is not a file. -/
def checkFile (t : Tree) (path : String) : Except FlowOutcome Unit :=
  match t.stat path with
  | .ok (.file _) => .ok ()
  | .ok _ => .error (.fatal ("source " ++ path ++ " is not a file"))
  | .error .notFound => .error (.fatal ("source " ++ path ++ " does not exist"))
  | .error e => .error (.retry ("cannot stat " ++ path ++ ": " ++ e.message))

/-- The copy that a request asks for, or why it is not made. -/
def plan (f : FileFlow) (t : Tree) (r : TransferRequest) : Except FlowOutcome Copy := do
  let some wanted := sourceOf? r
    | .error (.fatal ("request " ++ r.id ++ " has no source path"))
  let some goal := r.destination.properties.get? "path"
    | .error (.fatal ("request " ++ r.id ++ " has no destination path"))
  let some source := confine f.sourceRoot wanted
    | .error (.fatal ("source " ++ wanted ++ " is outside the source root"))
  let some directory := confine f.destinationRoot goal
    | .error (.fatal ("destination " ++ goal ++ " is outside the destination root"))
  checkFile t source
  checkWithin t f.sourceRoot source "source"
  checkWithin t f.destinationRoot directory "destination"
  .ok ⟨source, directory, r.id⟩

/-- The answer to a request, and the copy that is started in the background. -/
def initiate (f : FileFlow) (t : Tree) (r : TransferRequest) : FlowOutcome × Option Copy :=
  match f.plan t r with
  | .ok copy => (.ok, some copy)
  | .error outcome => (outcome, none)

/-- Makes the directory, copies the file into it and puts the marker beside it.
The tree shows how far the copy came. -/
def Copy.run (c : Copy) (t : Tree) : Except FileError Unit × Tree :=
  match t.createAll c.directory with
  | (.error e, t) => (.error e, t)
  | (.ok (), t) =>
    match fileName? c.source with
    | none => (.error .noFileName, t)
    | some name =>
      match t.copy c.source (join c.directory name) with
      | .error e => (.error e, t)
      | .ok t =>
        match t.writeEmpty (join c.directory (name ++ markerSuffix)) with
        | .error e => (.error e, t)
        | .ok t => (.ok (), t)

/-- What a failed copy is reported as. -/
def Copy.failure (c : Copy) (e : FileError) : String :=
  "copy of " ++ c.source ++ " failed: " ++ e.message

end FileFlow

end Ferry
