import PartialTx.Json.Reader
import PartialTx.Settings.Basic
import PartialTx.Text.Split

/-! The settings of the user in a file: a JSON object in the file `config` of a folder.
A missing file holds no settings; a broken one is a fault. -/

namespace PartialTx.Settings

/-! ### Paths -/

/-- Files and folders, each under the names on the way to it from the root, and the folder in
which relative paths start. The folders on the way to a file need not be listed. -/
structure Files where
  content : List (List Text × Bytes) := []
  folders : List (List Text) := []
  working : List Text := []

/-- What stands between the names in a path. -/
def slash : CodePoint := '/'

namespace Files

def isFolder (files : Files) (place : List Text) : Bool :=
  (files.content.map fun f => f.1.dropLast) ++ files.folders |>.any place.isPrefixOf

/-- One step of a path: empty names and single dots stay in the folder, two dots lead to the
folder above, which for the root is the root. -/
def enter (files : Files) (place : List Text) (name : Text) : Option (List Text) :=
  if name = [] ∨ name = "." then some place
  else if name = ".." then some place.dropLast
  else if files.isFolder (place ++ [name]) then some (place ++ [name])
  else none

/-- The longest path, in bytes. -/
def maxPath : Nat := 4095

/-- The content of the file to which a path leads. -/
def read? (files : Files) (path : Text) : Option Bytes := do
  let names := Text.split slash path
  if maxPath < path.toString.utf8ByteSize then none
  let start := if path.head? = some slash then [] else files.working
  let folder ← names.dropLast.foldlM files.enter start
  files.content.lookup (folder ++ [← names.getLast?])

end Files

def fileName : Text := "config"

/-- The path of the file in a folder. -/
def filePath (folder : Text) : Text :=
  if folder.getLast? = some slash then folder ++ fileName else folder ++ slash :: fileName

/-! ### Reading -/

/-- The settings in the file of a folder, as an object. -/
def readFolder (files : Files) (folder : Value) : Except Fault Value :=
  if !folder.truth then .ok (.object [])
  else
    match folder with
    | .text folder =>
      let path := filePath folder
      match files.read? path with
      | none => .ok (.object [])
      | some content =>
        match Json.ofBytes? content with
        | none => .error (.settingsFileBroken path)
        | some (.object members) => .ok (.object members)
        | some _ => .error (.settingsFileNotObject path)
    | _ => .error .wrongKind

/-- Settings from options; those of the user are given, or read from the folder that the
options name. -/
def ofValues (files : Files) (options : Value) (user : Option Value) : Except Fault Settings := do
  let options ← optionsOfValue options
  let user ←
    match user with
    | some user => pure user
    | none => readFolder files (folderIn options)
  return ofParts options user

end PartialTx.Settings
