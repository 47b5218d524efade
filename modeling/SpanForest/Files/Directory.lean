import SpanForest.Files.Fault
import SpanForest.Table
import SpanForest.Text.Line

/-!
A working directory of regular files and directories, by their paths below it. A path is followed
part by part: an empty part and a dot stay, two dots go up, a name goes down. Opening for reading
wants a file; opening for writing makes one or replaces its content. Links and permissions play no
part, nor does anything outside the directory.
-/

namespace SpanForest

inductive Entry where
  | file (bytes : List UInt8)
  | directory
  deriving DecidableEq

abbrev Directory := Table (List String) Entry

namespace Directory

/-- Where a path leads: a place with an entry, or a free one in a directory that is there. -/
inductive Place where
  | directory
  | file (path : List String) (bytes : List UInt8)
  | free (path : List String)

def parts (path : String) : List String :=
  let (ended, last) := Text.endedLines '/' path.toList
  (ended ++ [last]).map String.ofList

def nameLimit : Nat := 255

def pathLimit : Nat := 4096

def isStay (part : String) : Bool := part = "" || part = "."

/-- Whether a directory is there, by itself or because something lies in it. -/
def hasDirectory (d : Directory) (path : List String) : Bool :=
  path.isEmpty || d.any fun entry =>
    if entry.1 = path then entry.2 = .directory else path.isPrefixOf entry.1

def follow (d : Directory) (whole : String) (here : List String) :
    List String → Except FileFault Place
  | [] => .ok .directory
  | part :: rest =>
      if isStay part then follow d whole here rest
      else if part = ".." then
        if here.isEmpty then
          if rest.all fun part => isStay part || part = ".." then .ok .directory
          else .error (.notFound whole)
        else follow d whole here.dropLast rest
      else if nameLimit < part.utf8ByteSize then .error (.nameTooLong whole)
      else
        let path := here ++ [part]
        match d.find? path with
        | some (.file bytes) =>
            if rest.isEmpty then .ok (.file path bytes) else .error (.notDirectory whole)
        | _ =>
            if hasDirectory d path then follow d whole path rest
            else if rest.isEmpty then .ok (.free path)
            else if rest.all (· = "") then .error (.isDirectory whole)
            else .error (.notFound whole)

def locate (d : Directory) (path : String) : Except FileFault Place :=
  if path.toList.contains '\x00' then .error .nullByte
  else if path = "" then .error (.notFound path)
  else if pathLimit ≤ path.utf8ByteSize then .error (.nameTooLong path)
  else if path.toList.head? = some '/' then
    if (parts path).all isStay then .ok .directory else .error (.notFound path)
  else follow d path [] (parts path)

def read (d : Directory) (path : String) : Except FileFault (List UInt8) :=
  match d.locate path with
  | .ok (.file _ bytes) => .ok bytes
  | .ok .directory => .error (.isDirectory path)
  | .ok (.free _) => .error (.notFound path)
  | .error (.isDirectory path) => .error (.notFound path)
  | .error fault => .error fault

def write (d : Directory) (path : String) (bytes : List UInt8) : Except FileFault Directory :=
  match d.locate path with
  | .ok (.file place _) => .ok (d.put place (.file bytes))
  | .ok (.free place) => .ok (d.put place (.file bytes))
  | .ok .directory => .error (.isDirectory path)
  | .error fault => .error fault

def changes (before after : Directory) : List (String × List UInt8) :=
  after.filterMap fun entry =>
    match entry.2 with
    | .directory => none
    | .file bytes =>
        if before.find? entry.1 = some (.file bytes) then none
        else some ("/".intercalate entry.1, bytes)

end Directory

end SpanForest
