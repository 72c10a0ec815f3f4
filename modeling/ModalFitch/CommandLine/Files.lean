import ModalFitch.Text.Quoted

/-! Files by name, and why one cannot be read. -/

namespace ModalFitch.CommandLine
set_option autoImplicit false

/-- Why a file cannot be read; the path is in its plain form. -/
inductive FileError where
  | notFound (path : String)
  | notDirectory (path : String)
  | isDirectory (path : String)
  | nameTooLong (path : String)
  /-- The path has a zero byte. -/
  | zeroByte
  | other (text : String)
deriving DecidableEq, Repr

def FileError.message : FileError → String
  | .notFound p => s!"[Errno 2] No such file or directory: {Text.quoted p}"
  | .notDirectory p => s!"[Errno 20] Not a directory: {Text.quoted p}"
  | .isDirectory p => s!"[Errno 21] Is a directory: {Text.quoted p}"
  | .nameTooLong p => s!"[Errno 36] File name too long: {Text.quoted p}"
  | .zeroByte => "embedded null byte"
  | .other text => text

/-! ## Paths -/

/-- The parts of a path between its slashes, without empty ones and single dots. The first
argument holds the part read so far, in reverse. -/
def partsFrom (current : List Char) : List Char → List (List Char)
  | [] => keep current
  | c :: cs => if c = '/' then keep current ++ partsFrom [] cs else partsFrom (c :: current) cs
where
  keep (part : List Char) : List (List Char) :=
    if part.isEmpty || part = ['.'] then [] else [part.reverse]

def pathParts (path : String) : List String := (partsFrom [] path.toList).map String.ofList

/-- What a path starts with: one slash, or exactly two. -/
def pathRoot (path : String) : String :=
  match path.toList.takeWhile (· = '/') with
  | [] => ""
  | ['/', '/'] => "//"
  | _ => "/"

/-- A path without empty parts and single dots; the current directory is a single dot. -/
def plainPath (path : String) : String :=
  let plain := pathRoot path ++ "/".intercalate (pathParts path)
  if plain.isEmpty then "." else plain

/-- The longest name of a file or directory, in bytes. -/
def maxNameBytes : Nat := 255

/-- The longest path, in bytes. -/
def maxPathBytes : Nat := 4095

/-! ## Directories -/

/-- The files of a directory: their names, which may lead through inner directories, and their
bytes. -/
abbrev Directory : Type := List (String × List UInt8)

/-- What becomes of a path that leads out of the directory, by the parts from there on: there is
nothing to be read. -/
def outside (plain : String) (parts : List String) : FileError :=
  match parts.dropWhile (· = "..") with
  | [] => .isDirectory plain
  | part :: _ => if maxNameBytes < part.utf8ByteSize then .nameTooLong plain else .notFound plain

/-- Follows the parts of a path from an inner directory on. -/
def Directory.follow (d : Directory) (plain : String) (here : List String) :
    List String → Except FileError (List UInt8)
  | [] => .error (.isDirectory plain)
  | part :: rest =>
    if part = ".." then
      if here.isEmpty then .error (outside plain rest) else d.follow plain here.dropLast rest
    else if maxNameBytes < part.utf8ByteSize then .error (.nameTooLong plain)
    else
      let there := here ++ [part]
      match d.find? fun (name, _) => pathParts name = there with
      | some (_, bytes) => if rest.isEmpty then .ok bytes else .error (.notDirectory plain)
      | none =>
        if d.any fun (name, _) => there.isPrefixOf (pathParts name) then d.follow plain there rest
        else .error (.notFound plain)

/-- The content of a file in the directory. -/
def Directory.read (d : Directory) (path : String) : Except FileError (List UInt8) :=
  let plain := plainPath path
  let parts := pathParts path
  if path.toList.contains '\x00' then .error .zeroByte
  else if maxPathBytes < plain.utf8ByteSize then .error (.nameTooLong plain)
  else if pathRoot path = "" then d.follow plain [] parts
  else .error (outside plain parts)

end ModalFitch.CommandLine
