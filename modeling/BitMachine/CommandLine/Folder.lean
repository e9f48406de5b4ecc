/-! Paths, and a folder of text files in which they are looked up. -/

set_option autoImplicit false

namespace BitMachine.CommandLine

/-- A path as its parts. Empty parts and single dots are dropped; double dots are kept. -/
structure Path where
  /-- The slashes in front of a path that does not start in the current folder. -/
  root : String := ""
  parts : List String
deriving DecidableEq, Repr

namespace Path

/-- The leading slashes that count: two are kept apart from one, more are one. -/
def rootOf : List Char → String
  | '/' :: '/' :: '/' :: _ => "/"
  | '/' :: '/' :: _ => "//"
  | '/' :: _ => "/"
  | _ => ""

def ofString (text : String) : Path where
  root := rootOf text.toList
  parts := (text.splitOn "/").filter fun part => part != "" && part != "."

def render (path : Path) : String :=
  if path.parts.isEmpty && path.root == "" then "."
  else path.root ++ "/".intercalate path.parts

/-- The path with something appended to its last part. -/
def extend (path : Path) (ending : String) : Path :=
  match path.parts.reverse with
  | [] => { path with parts := [ending] }
  | last :: before => { path with parts := (((last ++ ending) :: before).reverse) }

end Path

inductive Entry where
  | missing
  | folder
  | text (content : String)
  /-- The path, or a name on the way, is longer than any can be. -/
  | overlong
deriving DecidableEq, Repr

/-- The names that lead to a place from the outermost folder. Double dots lead out of it, and a slash
in front stands for the root of all folders. -/
abbrev Place := List String

namespace Place

/-- The folder that holds a place. The root is its own. -/
def parent (place : Place) : Place :=
  if place == ["/"] then place
  else if place.all (· == "..") then place ++ [".."]
  else place.dropLast

end Place

inductive Lookup where
  /-- Through something that is no folder. -/
  | nowhere
  | overlong
  | found (place : Place)
deriving DecidableEq, Repr

/-- Text files and folders by their places. The root and its usual folders are there beforehand. -/
structure Folder where
  files : List (Place × String) := [(["/", "dev", "null"], "")]
  folders : List Place :=
    ["/"] :: ["bin", "boot", "dev", "etc", "home", "lib", "media", "mnt", "opt", "proc", "root",
      "run", "sbin", "srv", "sys", "tmp", "usr", "var"].map (["/", ·])

namespace Folder

/-- How many bytes a name may have. -/
def nameLimit : Nat := 255

/-- How many bytes a path must stay below. -/
def pathLimit : Nat := 4096

/-- The places that parts lead through, and the one that they lead to. -/
def walk (place : Place) : List String → List Place × Place
  | [] => ([], place)
  | part :: rest =>
    let (passed, last) := walk (if part == ".." then place.parent else place ++ [part]) rest
    (place :: passed, last)

/-- Puts a file into the folder, and makes the folders that its path leads through. -/
def addFile (folder : Folder) (name content : String) : Folder :=
  let (passed, place) := walk [] (Path.ofString name).parts
  { files := folder.files ++ [(place, content)], folders := folder.folders ++ passed }

def ofFiles (files : List (String × String)) : Folder :=
  files.foldl (fun folder (name, content) => folder.addFile name content) {}

/-- Whether a folder is at a place. The folders around the outermost one all exist. -/
def isFolder (folder : Folder) (place : Place) : Bool :=
  place.all (· == "..") || folder.folders.contains place

/-- Where parts lead from a place: each part but the last must lead to a folder. -/
def resolve (folder : Folder) (place : Place) : List String → Lookup
  | [] => .found place
  | part :: rest =>
    if !folder.isFolder place then .nowhere
    else if part == ".." then folder.resolve place.parent rest
    else if nameLimit < part.utf8ByteSize then .overlong
    else folder.resolve (place ++ [part]) rest

/-- Where a path leads. No path with a null character leads anywhere. -/
def locate (folder : Folder) (path : Path) : Lookup :=
  if path.render.toList.contains '\x00' then .nowhere
  else if pathLimit ≤ path.render.utf8ByteSize then .overlong
  else folder.resolve (if path.root == "" then [] else ["/"]) path.parts

def entry (folder : Folder) (path : Path) : Entry :=
  match folder.locate path with
  | .nowhere => .missing
  | .overlong => .overlong
  | .found place =>
    match folder.files.lookup place with
    | some content => .text content
    | none => if folder.isFolder place then .folder else .missing

/-- The places that texts are written to, with the texts that change something there. -/
def changes (folder : Folder) (written : List (Path × String)) : List (String × String) :=
  written.filterMap fun (path, content) =>
    match folder.locate path with
    | .found place =>
      if folder.files.lookup place == some content then none
      else some ("/".intercalate place, content)
    | _ => none

end Folder

end BitMachine.CommandLine
