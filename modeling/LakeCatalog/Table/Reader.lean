import LakeCatalog.Avro.Reader
import LakeCatalog.PropertiesFile
import LakeCatalog.Settings
import LakeCatalog.Table.Basic
import LakeCatalog.Text.Numeral
import LakeCatalog.Text.Pieces

/-!
# Reading a table from its directory

A tree of files and directories as far as reading one needs it. Files hold bytes. A name is a
string, or bytes that are no string. Reading fails with the reason that the system gives.

Every action on a table leaves files that are named for its instant. A completed commit is a name
`i.A` or `i_S.A`: the instant `i` is a non-empty run of ASCII digits, `A` names one of three
actions, and there is no other point in the name. Instants are ordered as texts. Names of actions
that are only requested or in flight, and names with anything behind the action, say nothing of the
kind.

The directory of a table has a folder for metadata. A properties file in it states the facts, and
the names of the files in it and in its timeline folder tell which commits are completed. A folder
that does not exist holds no commits.
-/

namespace LakeCatalog

/-- The name of a file or a directory. -/
inductive FileName where
  | text (name : String)
  /-- Bytes that are not UTF-8. -/
  | bytes (name : List UInt8)
  deriving DecidableEq

def FileName.text? : FileName → Option String
  | .text name => some name
  | .bytes _ => none

inductive FileNode where
  | file (content : List UInt8)
  | directory (entries : List (FileName × FileNode))

inductive ReadFault where
  | notFound
  | notDirectory
  | isDirectory
  | notText
  deriving DecidableEq

def ReadFault.message : ReadFault → String
  | .notFound => "No such file or directory (os error 2)"
  | .notDirectory => "Not a directory (os error 20)"
  | .isDirectory => "Is a directory (os error 21)"
  | .notText => "stream did not contain valid UTF-8"

/-- The way from a directory to something in it. -/
abbrev FilePath := List FileName

namespace FileNode

def empty : FileNode := .directory []

/-- The entries of a directory; a file has none. -/
def entries : FileNode → List (FileName × FileNode)
  | .file _ => []
  | .directory entries => entries

def at? : FilePath → FileNode → Except ReadFault FileNode
  | [], node => .ok node
  | _ :: _, .file _ => .error .notDirectory
  | name :: rest, .directory entries =>
    match entries.lookup name with
    | some node => at? rest node
    | none => .error .notFound

/-- The tree with a node put at the end of a path; directories on the way are made, and files on
the way give way to them. -/
def put (new : FileNode) : FilePath → FileNode → FileNode
  | [], _ => new
  | name :: rest, node =>
    let kept := node.entries.filter fun e => e.1 != name
    let below := (node.entries.lookup name).getD empty
    .directory ((name, put new rest below) :: kept)

/-- The tree with a directory at the end of a path; one that is there keeps its entries. -/
def makeDirectory (path : FilePath) (tree : FileNode) : FileNode :=
  match tree.at? path with
  | .ok (.directory _) => tree
  | _ => put empty path tree

def remove : FilePath → FileNode → FileNode
  | [], _ => empty
  | _ :: _, .file content => .file content
  | [name], .directory entries => .directory (entries.filter fun e => e.1 != name)
  | name :: rest, .directory entries =>
    match entries.lookup name with
    | none => .directory entries
    | some node => .directory ((name, remove rest node) :: entries.filter fun e => e.1 != name)

def readText (path : FilePath) (tree : FileNode) : Except ReadFault String := do
  match ← tree.at? path with
  | .directory _ => .error .isDirectory
  | .file content =>
    match String.fromUTF8? ⟨content.toArray⟩ with
    | some text => .ok text
    | none => .error .notText

def list (path : FilePath) (tree : FileNode) : Except ReadFault (List FileName) := do
  match ← tree.at? path with
  | .directory entries => .ok (entries.map Prod.fst)
  | .file _ => .error .notDirectory

end FileNode

end LakeCatalog

namespace LakeCatalog.Timeline

open Text

def completedActions : List (List Char) :=
  ["commit".toList, "deltacommit".toList, "replacecommit".toList]

/-- The instant of the completed commit that a file name stands for. -/
def completedInstant? (name : String) : Option String :=
  match cutAt (· == '.') name.toList with
  | (stem, some action) =>
    let instant := (cutAt (· == '_') stem).1
    if completedActions.contains action && !instant.isEmpty && instant.all isDigit then
      some (String.ofList instant)
    else none
  | _ => none

/-- The later of an instant and the latest one so far. -/
def later (latest : Option String) (instant : String) : Option String :=
  match latest with
  | none => some instant
  | some l => if l < instant then some instant else some l

def lastInstant (names : List String) : Option String :=
  (names.filterMap completedInstant?).foldl later none

/-- A non-empty run of ASCII digits. -/
def IsInstant (instant : String) : Prop :=
  instant ≠ "" ∧ ∀ c ∈ instant.toList, isDigit c = true

instance (instant : String) : Decidable (IsInstant instant) :=
  decidable_of_iff (instant ≠ "" ∧ instant.toList.all isDigit = true)
    (and_congr_right fun _ => List.all_eq_true)

def IsCompletedAction (action : String) : Prop :=
  action = "commit" ∨ action = "deltacommit" ∨ action = "replacecommit"

instance (action : String) : Decidable (IsCompletedAction action) :=
  inferInstanceAs (Decidable (_ ∨ _))

/-- The name of a commit that was completed at an instant. -/
inductive NamesCommit (instant : String) : String → Prop where
  | plain {action : String} (digits : IsInstant instant) (completed : IsCompletedAction action) :
    NamesCommit instant (instant ++ "." ++ action)
  /-- Behind the instant may stand when the action was completed, or anything else without a
  point. -/
  | extended {extension action : String} (digits : IsInstant instant)
    (pointless : '.' ∉ extension.toList) (completed : IsCompletedAction action) :
    NamesCommit instant (instant ++ "_" ++ extension ++ "." ++ action)

def IsCompleted (names : List FileName) (instant : String) : Prop :=
  ∃ name, .text name ∈ names ∧ NamesCommit instant name

/-- Two listings hold the same names of completed commits, in whatever order. -/
def SameCommits (names names' : List FileName) : Prop :=
  ∀ instant name, NamesCommit instant name → (.text name ∈ names ↔ .text name ∈ names')

end LakeCatalog.Timeline

namespace LakeCatalog.FileNode

/-- What a folder holds, in the order in which it is listed. A folder that does not exist holds
nothing. -/
def Lists (tree : FileNode) (folder : FilePath) (names : List FileName) : Prop :=
  tree.list folder = .ok names ∨ tree.list folder = .error .notFound ∧ names = []

end LakeCatalog.FileNode

namespace LakeCatalog.TableReader

def metaFolder : FilePath := [.text ".hoodie"]

def timelineFolder : FilePath := metaFolder ++ [.text "timeline"]

def propertiesFile : FilePath := metaFolder ++ [.text "hoodie.properties"]

/-- A name below a path; a path that is empty or ends in a slash needs no slash before the name. -/
def below (path name : String) : String :=
  if path.toList.getLast?.all (· == '/') then path ++ name else path ++ "/" ++ name

def shownPath (base : String) (path : FilePath) : String :=
  (path.filterMap FileName.text?).foldl below base

/-- The value of a property without the blanks around it; a blank value is none. -/
def property? (d : Dictionary String) (key : String) : Option String :=
  ((d.get? key).map Text.trimmed).filter (!·.isEmpty)

/-- The columns of a list that may state after a colon how each of them partitions the table. -/
def partitionFields (raw : String) : List String :=
  ((Text.pieces (· == ',') raw.toList).map fun piece =>
    String.ofList (Text.trim (Text.cutAt (· == ':') piece).1)).filter (!·.isEmpty)

/-- The facts that properties state about a table at a base path. -/
def factsOf (base : String) (d : Dictionary String) : Except Fault TableFacts := do
  let kind ← match property? d "hoodie.table.type" with
    | some raw => TableKind.parse raw
    | none => .ok .copyOnWrite
  let fileFormat ← match property? d "hoodie.table.base.file.format" with
    | some raw => FileFormat.parse raw
    | none => .ok .parquet
  let raw ← match property? d "hoodie.table.create.schema" with
    | some raw => .ok raw
    | none => .error (.build .noStoredSchema)
  let schema ← Avro.parse (← Avro.addMetadataColumns raw)
  return {
    kind, fileFormat, schema
    version := (property? d "hoodie.table.version").getD "0"
    basePath := base
    partitionFields :=
      ((property? d "hoodie.table.partition.fields").map partitionFields).getD [] }

def facts (base : String) (tree : FileNode) : Except Fault TableFacts :=
  match tree.readText propertiesFile with
  | .error reason =>
    .error (.metadata (.unreadable (shownPath base propertiesFile) reason.message))
  | .ok text => factsOf base (PropertiesFile.parse text)

/-- The names in a folder that are strings. -/
def namesIn (base : String) (tree : FileNode) (folder : FilePath) : Except Fault (List String) :=
  match tree.list folder with
  | .ok names => .ok (names.filterMap FileName.text?)
  | .error .notFound => .ok []
  | .error reason => .error (.metadata (.unlistable (shownPath base folder) reason.message))

def lastCommit (base : String) (tree : FileNode) : Except Fault (Option String) := do
  let names ← namesIn base tree metaFolder
  let more ← namesIn base tree timelineFolder
  return Timeline.lastInstant (names ++ more)

def read (base : String) (tree : FileNode) : Table where
  facts := facts base tree
  lastCommit := lastCommit base tree

end LakeCatalog.TableReader
