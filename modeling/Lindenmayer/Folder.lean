import Lindenmayer.Text.Lines

/-!
# A folder and the paths that lead from it

The folder that a program works in holds files and no folders. Of what lies outside it nothing is
known but that the folders above it exist, that the topmost one holds the usual folders, and that
`/dev/null` is a file with nothing in it. A path is followed name by name, and the first step that
cannot be taken decides why it leads nowhere.
-/
namespace Lindenmayer

/-- Why a path leads to no file. -/
inductive PathError where
  | noSuchFile
  | notDirectory
  | isDirectory
  | nameTooLong
  deriving DecidableEq

def PathError.code : PathError → Nat
  | noSuchFile => 2
  | notDirectory => 20
  | isDirectory => 21
  | nameTooLong => 36

def PathError.reason : PathError → String
  | noSuchFile => "No such file or directory"
  | notDirectory => "Not a directory"
  | isDirectory => "Is a directory"
  | nameTooLong => "File name too long"

/-- A text with a NUL in it is no path. -/
def isPath (s : List Char) : Bool := !s.contains '\x00'

/-- What paths lead to: the content of a file to read, and the name that a file gets in the working
folder when it is written, if it lies there. -/
structure Surroundings where
  read : List Char → Except PathError ByteArray
  target : List Char → Except PathError (Option (List Char))
  /-- Whether a picture is painted as soon as that is asked for, as without a screen. In front of a
  screen it is only painted once nothing else is to be done. -/
  paintsAtOnce : Bool

structure Folder where
  files : List (List Char × ByteArray)

/-- Where a path has led so far. -/
inductive Place where
  /-- The folder itself. -/
  | here
  /-- A folder around it. -/
  | around
  /-- The topmost folder. -/
  | top
  /-- One of the usual folders in the topmost one. -/
  | usual (name : List Char)
  /-- The file with nothing in it. -/
  | void
  | file (name : List Char) (content : ByteArray)
  /-- A name that no file in the folder has. -/
  | vacant (name : List Char)
  /-- A name outside the folder of which nothing is known. -/
  | elsewhere

namespace Folder

/-- The greatest length of a name in bytes. -/
def maxName : Nat := 255

/-- Paths must be shorter than this, in bytes. -/
def maxPath : Nat := 4096

def byteLength (s : List Char) : Nat := (String.ofList s).utf8ByteSize

def contentOf? (f : Folder) (name : List Char) : Option ByteArray :=
  (f.files.find? fun e => e.1 == name).map Prod.snd

/-- An empty name or a single point stays, and two points lead up. -/
def stays (name : List Char) : Bool := name.isEmpty || name == ['.']

def leadsUp (name : List Char) : Bool := name == ['.', '.']

/-- The folders that the topmost folder holds. -/
def usualNames : List (List Char) :=
  ["bin", "boot", "dev", "etc", "home", "lib", "lib64", "media", "mnt", "opt", "proc", "root", "run",
    "sbin", "srv", "sys", "tmp", "usr", "var"].map String.toList

/-- The folder of the file with nothing in it, and that file's name. -/
def voidPath : List Char × List Char := ("dev".toList, "null".toList)

def enter (f : Folder) (name : List Char) : Place → Except PathError Place
  | .here =>
    if stays name then .ok .here
    else if leadsUp name then .ok .around
    else if maxName < byteLength name then .error .nameTooLong
    else
      match f.contentOf? name with
      | some content => .ok (.file name content)
      | none => .ok (.vacant name)
  | .around =>
    if stays name || leadsUp name then .ok .around
    else if maxName < byteLength name then .error .nameTooLong
    else .ok .elsewhere
  | .top =>
    if stays name || leadsUp name then .ok .top
    else if maxName < byteLength name then .error .nameTooLong
    else if usualNames.contains name then .ok (.usual name)
    else .ok .elsewhere
  | .usual outer =>
    if stays name then .ok (.usual outer)
    else if leadsUp name then .ok .top
    else if maxName < byteLength name then .error .nameTooLong
    else if (outer, name) == voidPath then .ok .void
    else .ok .elsewhere
  | .void => .error .notDirectory
  | .file _ _ => .error .notDirectory
  | .vacant _ => .error .noSuchFile
  | .elsewhere => .error .noSuchFile

/-- Where a path leads. One that begins with a slash begins in the topmost folder. -/
def follow (f : Folder) (path : List Char) : Except PathError Place :=
  if path.isEmpty then .error .noSuchFile
  else if maxPath ≤ byteLength path then .error .nameTooLong
  else
    (Text.splitOn '/' path).foldlM (fun place name => f.enter name place)
      (if path.head? = some '/' then Place.top else Place.here)

/-- The content of the file that a path leads to. -/
def read (f : Folder) (path : List Char) : Except PathError ByteArray :=
  match f.follow path with
  | .error e => .error e
  | .ok (.file _ content) => .ok content
  | .ok (.vacant _) => .error .noSuchFile
  | .ok .elsewhere => .error .noSuchFile
  | .ok .void => .ok ByteArray.empty
  | .ok .here => .error .isDirectory
  | .ok .around => .error .isDirectory
  | .ok .top => .error .isDirectory
  | .ok (.usual _) => .error .isDirectory

/-- The name in the folder under which a file is written at a path; none if it lies outside. -/
def target (f : Folder) (path : List Char) : Except PathError (Option (List Char)) :=
  match f.follow path with
  | .error e => .error e
  | .ok (.file name _) => .ok (some name)
  | .ok (.vacant name) => .ok (some name)
  | .ok .elsewhere => .ok none
  | .ok .void => .ok none
  | .ok .here => .error .isDirectory
  | .ok .around => .error .isDirectory
  | .ok .top => .error .isDirectory
  | .ok (.usual _) => .error .isDirectory

/-- What paths lead to from the folder, without a screen. -/
def surroundings (f : Folder) : Surroundings := ⟨f.read, f.target, true⟩

end Folder

end Lindenmayer
