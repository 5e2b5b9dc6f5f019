import TokenQuota.NameMap
import TokenQuota.Text.Blank
import TokenQuota.Text.Bytes

/-! A directory of files, and how access to it fails. -/

namespace TokenQuota

/-- The reason why a file cannot be accessed. -/
inductive FileError
  | noFile
  | inputOutput
  | fileExists
  | noDirectory
  | isDirectory
  | nameTooLong
  | zeroInName
  | noText
deriving DecidableEq

def FileError.message : FileError → String
  | .noFile => "No such file or directory (os error 2)"
  | .inputOutput => "Input/output error (os error 5)"
  | .fileExists => "File exists (os error 17)"
  | .noDirectory => "Not a directory (os error 20)"
  | .isDirectory => "Is a directory (os error 21)"
  | .nameTooLong => "File name too long (os error 36)"
  | .zeroInName => "file name contained an unexpected NUL byte"
  | .noText => "stream did not contain valid UTF-8"

/-- What a name in a directory stands for. -/
inductive Node
  | file (content : Bytes)
  | directory
deriving DecidableEq

/-- A directory, if there is one. Directories inside it are empty. -/
inductive Directory
  | absent
  /-- A file stands in its place. -/
  | blocked
  | present (nodes : NameMap Node)
deriving DecidableEq

namespace Directory

def longestName : Nat := 255

/-- Makes the directory unless it is there. -/
def make : Directory → Except FileError Directory
  | .absent => .ok (.present ∅)
  | .blocked => .error .fileExists
  | .present nodes => .ok (.present nodes)

def follow (nodes : NameMap Node) : List String → Except FileError Node
  | [] => .ok .directory
  | part :: rest =>
    if longestName < (Bytes.ofString part).length then .error .nameTooLong
    else if part = ".." then .error .noFile
    else
      match nodes.get? part with
      | none => .error .noFile
      | some (.file content) => if rest.isEmpty then .ok (.file content) else .error .noDirectory
      | some .directory =>
        match rest with
        | [] => .ok .directory
        | ".." :: rest => follow nodes rest
        | _ :: _ => .error .noFile

/-- The parts of a path; empty ones and single points lead nowhere else. -/
def pathParts (path : String) : List String :=
  ((Text.splitOn '/' path.toList).map String.ofList).filter fun part =>
    !(part.isEmpty || part == ".")

/-- The node at a path. A path from the root leads outside, where nothing is. -/
def node (d : Directory) (path : String) : Except FileError Node :=
  if path.toList.contains '\x00' then .error .zeroInName
  else if path.startsWith "/" then .error .noFile
  else
    match d with
    | .absent => .error .noFile
    | .blocked => .error .noDirectory
    | .present nodes => follow nodes (pathParts path)

def read (d : Directory) (path : String) : Except FileError Bytes := do
  match ← d.node path with
  | .file content => return content
  | .directory => throw .isDirectory

/-- Writes a file, over the one of the same name if there is one. -/
def write (d : Directory) (name : String) (content : Bytes) : Except FileError Directory :=
  match d with
  | .absent => .error .noFile
  | .blocked => .error .noDirectory
  | .present nodes =>
    if nodes.get? name = some .directory then .error .isDirectory
    else .ok (.present (nodes.insert name (.file content)))

/-- Gives a file another name at once, over the file of that name if there is one. -/
def rename (d : Directory) (source target : String) : Except FileError Directory :=
  match d with
  | .absent => .error .noFile
  | .blocked => .error .noDirectory
  | .present nodes =>
    match nodes.get? source with
    | none => .error .noFile
    | some moved =>
      if nodes.get? target = some .directory then .error .isDirectory
      else .ok (.present ((nodes.erase source).insert target moved))

def erase (d : Directory) (name : String) : Directory :=
  match d with
  | .present nodes => .present (nodes.erase name)
  | d => d

/-- Puts a node under a name, in a directory that is made if it is not there. -/
def put (d : Directory) (name : String) (node : Node) : Directory :=
  match d with
  | .absent => .present (NameMap.empty.insert name node)
  | .blocked => .blocked
  | .present nodes => .present (nodes.insert name node)

def nodes : Directory → NameMap Node
  | .present nodes => nodes
  | _ => ∅

end Directory

end TokenQuota
