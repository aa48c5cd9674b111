/-!
# Paths

A path is a text; what it means lexically is a list of components, in which
repeated slashes and inner dots have disappeared. Nothing here looks at a file
system.
-/

namespace Ferry.File

/-- A step of a path. -/
inductive Component where
  /-- The root directory, first in an absolute path. -/
  | root
  /-- A dot, kept only at the start of a relative path. -/
  | here
  /-- The directory above. -/
  | up
  | normal (name : String)
deriving DecidableEq, Repr

/-- The pieces of a text between its slashes; there is one more than slashes. -/
def splitSlashes : List Char → List (List Char)
  | [] => [[]]
  | c :: cs =>
    if c = '/' then [] :: splitSlashes cs
    else match splitSlashes cs with
      | [] => [[c]]
      | p :: ps => (c :: p) :: ps

/-- The pieces of a path as strings. -/
def pieces (path : String) : List String :=
  (splitSlashes path.toList).map String.ofList

/-- The component of a piece, if it stands for one. -/
def component? (piece : String) : Option Component :=
  if piece = "" || piece = "." then none
  else if piece = ".." then some .up
  else some (.normal piece)

def isAbsolute (path : String) : Bool :=
  path.toList.head? == some '/'

/-- The components of a path. -/
def components (path : String) : List Component :=
  let front : List Component :=
    if isAbsolute path then [.root]
    else if (pieces path).head? == some "." then [.here]
    else []
  front ++ (pieces path).filterMap component?

/-- The path `next` as seen from `base`; an absolute path stands for itself. -/
def join (base next : String) : String :=
  if isAbsolute next then next
  else
    let cs := base.toList
    if cs.isEmpty || cs.getLast? == some '/' then base ++ next
    else base ++ "/" ++ next

/-- The components of `root` are the first ones of `path`. -/
def startsWith (path root : String) : Bool :=
  (components root).isPrefixOf (components path)

/-- The name at the end of a path. -/
def fileName? (path : String) : Option String :=
  match (components path).getLast? with
  | some (.normal name) => some name
  | _ => none

/-- The text of one component after the first. -/
def Component.text : Component → String
  | root => "/"
  | here => "."
  | up => ".."
  | normal name => name

/-- A path with the components. -/
def ofComponents : List Component → String
  | [] => ""
  | c :: cs => cs.foldl (fun path c => join path c.text) c.text

/-- The path without its last component; the root and the empty path have none. -/
def parent? (path : String) : Option String :=
  match (components path).getLast? with
  | none | some .root => none
  | some _ => some (ofComponents (components path).dropLast)

/-- The name of a single entry of a directory. -/
def isPlainName (name : String) : Bool :=
  match components name with
  | [.normal _] => !name.toList.any fun c => c = '/' || c = '\\'
  | _ => false

/-- Resolves a path against a root without looking at links: the answer, if
there is one, has the root's components first and no step upwards of its own. -/
def confine (root path : String) : Option String :=
  if (components path).contains .up then none
  else
    let resolved := join root path
    if startsWith resolved root then some resolved else none

end Ferry.File
