import ContractCfg.IR.Json

/-!
Saving compiled contracts into a fresh directory, one file `<name>.json` per contract, and
reading each file back. A contract name is taken as a path: a name that starts with `/` is
followed from the root, any other from the fresh directory, which sits directly in `/tmp`.
Paths are walked part by part: empty and `.` parts stay, `..` goes up (the root is its own
parent), and every other directory part must name a directory, either one of the host's or
none at all; a file written earlier in the same save is not a directory. A path with a zero
character is refused first, then a whole path of 4096 bytes or more, then, in walking order,
a part longer than 255 bytes. Files that two names reach alike hold the contract written last.
-/

namespace ContractCfg.IR

/-- Why a file could not be written. -/
inductive WriteFault where
  | notFound
  | invalidInput
  | invalidFilename
  | notADirectory
  deriving DecidableEq, Repr

/-- The name of the kind of failure. -/
def WriteFault.kind : WriteFault → String
  | .notFound => "NotFound"
  | .invalidInput => "InvalidInput"
  | .invalidFilename => "InvalidFilename"
  | .notADirectory => "NotADirectory"

/-- Longest part of a path, in bytes. -/
def partLimit : Nat := 255

/-- Longest whole path, in bytes. -/
def pathLimit : Nat := 4095

/-- The fresh directory, as the parts of its path from the root. -/
def scratchParts : List String := ["tmp", "saved-contracts-dir"]

/-- The fresh directory's path. -/
def scratchPath : String := String.join (scratchParts.map ("/" ++ ·))

/-- The host's directories, as paths from the root, that a name may reach outside the fresh
directory. -/
def hostDirectories : List (List String) :=
  [[], ["tmp"], ["etc"], ["dev"], ["usr"], ["var"], ["home"], ["root"], ["opt"]]

/-- The host's files that a name may try to pass through. -/
def hostFiles : List (List String) :=
  [["etc", "passwd"], ["etc", "group"], ["etc", "hosts"], ["etc", "hostname"],
    ["etc", "resolv.conf"], ["dev", "null"]]

/-- The directories and files a save can see: the host's, the fresh directory when it exists,
and the files written so far. -/
structure FileSystem where
  directories : List (List String)
  files : List (List String)
  deriving DecidableEq, Repr

/-- The file system a save starts from. -/
def FileSystem.initial (dirExists : Bool) : FileSystem :=
  { directories := if dirExists then hostDirectories ++ [scratchParts] else hostDirectories
    files := hostFiles }

/-- Walks the directory parts of a path from the directory `here`, giving the directory they
lead to. -/
def FileSystem.walk (fs : FileSystem) (here : List String) : List String → Except WriteFault (List String)
  | [] => .ok here
  | p :: ps =>
    if p = "" ∨ p = "." then fs.walk here ps
    else if p = ".." then fs.walk here.dropLast ps
    else if p.utf8ByteSize > partLimit then .error .invalidFilename
    else if fs.directories.contains (here ++ [p]) then fs.walk (here ++ [p]) ps
    else if fs.files.contains (here ++ [p]) then .error .notADirectory
    else .error .notFound

/-- The file that saving the contract `name` writes, as its path from the root, and the file
name the path ends in. -/
def FileSystem.target (fs : FileSystem) (name : String) : Except WriteFault (List String × String) := do
  let path := name ++ ".json"
  if path.contains (Char.ofNat 0) then throw .invalidInput
  let absolute := path.startsWith "/"
  let fullLength := if absolute then path.utf8ByteSize else scratchPath.utf8ByteSize + 1 + path.utf8ByteSize
  if fullLength > pathLimit then throw .invalidFilename
  let parts := path.splitOn "/"
  let dir ← fs.walk [] ((if absolute then [] else scratchParts) ++ parts.dropLast)
  let fileName := parts.getLastD ""
  if fileName.utf8ByteSize > partLimit then throw .invalidFilename
  pure (dir ++ [fileName], fileName)

/-- Writes the contracts in order, each file visible to the names after it; the first file that
cannot be written stops the save. Gives each file's path and name with its contract. -/
def FileSystem.writeAll (fs : FileSystem) :
    List Contract → Except WriteFault (List ((List String × String) × Contract))
  | [] => .ok []
  | c :: cs => do
    let t ← fs.target c.name
    let rest ← { fs with files := fs.files ++ [t.1] }.writeAll cs
    pure ((t, c) :: rest)

/-- Saves every contract in order and reads each file back: the file name and the fingerprint of
what was read, `none` when the file does not load. The first file that cannot be written stops
the whole save. -/
def saveAll (dirExists : Bool) (cs : List Contract) : Except WriteFault (List (String × Option String)) := do
  let written ← (FileSystem.initial dirExists).writeAll cs
  pure (written.map fun ((path, fileName), c) =>
    let last := ((written.filter (·.1.1 == path)).getLast?.map (·.2)).getD c
    (fileName, (Contract.load last.save).toOption.map Contract.fingerprint))

end ContractCfg.IR
