import ComponentMarkup.Settings
import ComponentMarkup.Text.Order
import ComponentMarkup.Text.Quoted
import ComponentMarkup.Text.Utf8

/-!
# Files

A tree of files, directories and symbolic links, kept as one binding for each location. A file is
known by a number, so that one file can be at several locations; what it holds is kept by this
number. Relative paths lead from a working directory. A path is followed name by name, so that one
which leads through something that is no directory is refused for the first such name; the names of
a link's target are followed in place of its own.
-/

namespace ComponentMarkup

/-- What there is at a location. -/
inductive FileEntry where
  /-- A file, by its number. -/
  | file (number : Nat)
  | directory
  /-- A symbolic link to where a path leads. -/
  | link (target : List Char)
  deriving DecidableEq

/-- The number of an entry, if it is a file. -/
def FileEntry.number? : FileEntry → Option Nat
  | .file number => some number
  | _ => none

/-- Files, directories and links by the names that lead to them from the root, which is always a
directory, and what the files hold by their numbers. -/
structure Files where
  bindings : List (List Name × FileEntry)
  contents : List (Nat × List UInt8)
  workingDirectory : List Name

/-! ## Faults -/

/-- Why a path does not lead to what is asked for. -/
inductive FileCause where
  | missing
  | alreadyExists
  | notDirectory
  | isDirectory
  | nameTooLong
  | tooManyLinks
  deriving DecidableEq, Repr

namespace FileCause

/-- The number of a cause. -/
def number : FileCause → Nat
  | missing => 2
  | alreadyExists => 17
  | notDirectory => 20
  | isDirectory => 21
  | nameTooLong => 36
  | tooManyLinks => 40

/-- The words for a cause. -/
def message : FileCause → String
  | missing => "No such file or directory"
  | alreadyExists => "File exists"
  | notDirectory => "Not a directory"
  | isDirectory => "Is a directory"
  | nameTooLong => "File name too long"
  | tooManyLinks => "Too many levels of symbolic links"

end FileCause

/-- Why a file is not read or written. -/
inductive FileFault where
  /-- The path holds a null character. -/
  | nullByte
  /-- The path does not lead to a file. -/
  | refused (cause : FileCause) (path : List Char)
  /-- The bytes of the file are no text. -/
  | notText (fault : Utf8Fault)
  deriving DecidableEq

/-- The words for bytes that are no text. -/
def Utf8Cause.message : Utf8Cause → String
  | invalidStart => "invalid start byte"
  | invalidContinuation => "invalid continuation byte"
  | unexpectedEnd => "unexpected end of data"

/-- The message about bytes that are no text. -/
def Utf8Fault.message (f : Utf8Fault) : List Char :=
  let first := toString f.position
  let bytes :=
    if f.count = 1 then
      "byte 0x" ++ String.ofList (paddedHex 2 f.byte.toNat) ++ " in position " ++ first
    else "bytes in position " ++ first ++ "-" ++ toString (f.position + f.count - 1)
  ("'utf-8' codec can't decode " ++ bytes ++ ": " ++ f.cause.message).toList

/-- The message about a file that is not read or written. -/
def FileFault.message : FileFault → List Char
  | nullByte => "embedded null byte".toList
  | refused cause path =>
      ("[Errno " ++ toString cause.number ++ "] " ++ cause.message ++ ": ").toList ++ quoted path
  | notText fault => fault.message

/-! ## Bindings -/

namespace Files

section

variable {κ α : Type} [DecidableEq κ]

/-- What a key is bound to. -/
def findBinding (key : κ) (bindings : List (κ × α)) : Option α :=
  (bindings.find? fun b => b.1 = key).map Prod.snd

/-- Binds a key, in place of what it was bound to. -/
def setBinding (key : κ) (value : α) : List (κ × α) → List (κ × α)
  | [] => [(key, value)]
  | b :: bs => if b.1 = key then (key, value) :: bs else b :: setBinding key value bs

theorem findBinding_cons (key : κ) (b : κ × α) (bs : List (κ × α)) :
    findBinding key (b :: bs) = if b.1 = key then some b.2 else findBinding key bs := by
  by_cases hb : b.1 = key <;> simp [findBinding, hb]

/-- A key is bound to what was set, and other keys to what they were. -/
theorem findBinding_setBinding (key key' : κ) (value : α) (bindings : List (κ × α)) :
    findBinding key' (setBinding key value bindings) =
      if key' = key then some value else findBinding key' bindings := by
  induction bindings with
  | nil => simp [setBinding, findBinding_cons, eq_comm]
  | cons b bs ih =>
      rw [setBinding]
      split
      · next hb =>
        rw [findBinding_cons, findBinding_cons, hb]
        by_cases hkey : key' = key
        · rw [if_pos hkey, if_pos hkey.symm]
        · simp only [if_neg hkey, if_neg (Ne.symm hkey)]
      · next hb =>
        rw [findBinding_cons, findBinding_cons, ih]
        by_cases hkey : key' = key
        · subst hkey
          simp [hb]
        · simp only [if_neg hkey]

end

/-- What there is at a location. -/
def find? (files : Files) (location : List Name) : Option FileEntry :=
  if location = [] then some .directory else findBinding location files.bindings

/-- What the file with a number holds. -/
def content (files : Files) (number : Nat) : List UInt8 :=
  (findBinding number files.contents).getD []

/-- Files with an entry at a location, in place of one that is there. -/
def set (files : Files) (location : List Name) (entry : FileEntry) : Files :=
  { files with bindings := setBinding location entry files.bindings }

/-- Files of which the one with a number holds some bytes. -/
def fill (files : Files) (number : Nat) (bytes : List UInt8) : Files :=
  { files with contents := setBinding number bytes files.contents }

/-- An entry is where it was put, and what is at other locations stays. -/
theorem find?_set (files : Files) {location : List Name} (h : location ≠ []) (entry : FileEntry)
    (l : List Name) :
    (files.set location entry).find? l =
      if l = location then some entry else files.find? l := by
  by_cases hl : l = []
  · subst hl
    simp [find?, Ne.symm h]
  · simp only [find?, if_neg hl, set, findBinding_setBinding]

@[simp]
theorem find?_fill (files : Files) (number : Nat) (bytes : List UInt8) (l : List Name) :
    (files.fill number bytes).find? l = files.find? l := rfl

@[simp]
theorem content_set (files : Files) (location : List Name) (entry : FileEntry) (number : Nat) :
    (files.set location entry).content number = files.content number := rfl

theorem content_fill (files : Files) (number : Nat) (bytes : List UInt8) (n : Nat) :
    (files.fill number bytes).content n = if n = number then bytes else files.content n := by
  rw [content, fill, findBinding_setBinding]
  split <;> rfl

/-! ## Following paths -/

/-- The greatest number of bytes of a name. -/
def nameLimit : Nat := 255

/-- The greatest number of bytes of a path. -/
def pathLimit : Nat := 4095

/-- The greatest number of links that are followed on the way of a path. -/
def linkLimit : Nat := 40

/-- Where a path starts from: an absolute one from the root, another one from a location. -/
def startFrom (location : List Name) (path : List Char) : List Name :=
  if path.head? = some '/' then [] else location

/-- Goes from a location by names, up to the first link that is to be passed or to the end. Every
name has to be looked up in a directory. What is left of the names is given with the location. -/
def walk (files : Files) (here : List Name) :
    List Name → Except FileCause (List Name × List Name)
  | [] => .ok (here, [])
  | name :: names =>
      match files.find? here with
      | none => .error .missing
      | some (.file _) => .error .notDirectory
      | some (.link _) => .ok (here, name :: names)
      | some .directory =>
          if (Utf8.encode name).length > nameLimit then .error .nameTooLong
          else if name = [] ∨ name = Name.here then files.walk here names
          else if name = Name.up then files.walk here.dropLast names
          else files.walk (here ++ [name]) names

/-- The target of a link that is to be followed where a walk came to; one at the end of the names
only if the last link is to be followed. -/
def pendingLink (files : Files) (last : Bool) (there : List Name × List Name) :
    Option (List Char) :=
  match files.find? there.1 with
  | some (.link target) => if there.2 = [] ∧ last = false then none else some target
  | _ => none

/-- Follows names from a location. The names of a link's target stand for that of the link; no more
than a number of links are followed. -/
def follow (files : Files) (last : Bool) (links : Nat) (here names : List Name) :
    Except FileCause (List Name) :=
  match files.walk here names with
  | .error cause => .error cause
  | .ok there =>
      match files.pendingLink last there, links with
      | none, _ => .ok there.1
      | some _, 0 => .error .tooManyLinks
      | some target, links + 1 =>
          files.follow last links (startFrom there.1.dropLast target)
            (splitSlashes target ++ there.2)

/-- The location to which a path leads, whether or not there is anything. A link at the end of the
path is followed only if the last link is to be. -/
def resolve (files : Files) (last : Bool) (path : List Char) : Except FileCause (List Name) :=
  if path = [] then .error .missing
  else if (Utf8.encode path).length > pathLimit then .error .nameTooLong
  else
    files.follow last linkLimit (startFrom files.workingDirectory path) (splitSlashes path)

/-- The location to which a path leads behind all links. -/
def locate (files : Files) (path : List Char) : Except FileCause (List Name) :=
  files.resolve true path

/-- The location to which a path leads, where there may be a link. -/
def locateEntry (files : Files) (path : List Char) : Except FileCause (List Name) :=
  files.resolve false path

/-- What comes of a path that may be passed on to the file system. -/
def checked {α : Type} (path : List Char) (result : Except FileCause α) : Except FileFault α :=
  if '\x00' ∈ path then .error .nullByte else result.mapError fun cause => .refused cause path

/-! ## Reading -/

/-- The bytes of a file. -/
def read (files : Files) (path : List Char) : Except FileFault (List UInt8) := do
  match files.find? (← checked path (files.locate path)) with
  | some (.file number) => return files.content number
  | some _ => throw (.refused .isDirectory path)
  | none => throw (.refused .missing path)

/-- What there is at a path, if anything; only a name that is too long is a fault. -/
def lookUp (files : Files) (path : List Char) : Except FileFault (Option FileEntry) :=
  match checked path (files.locate path) with
  | .ok location => .ok (files.find? location)
  | .error (.refused .nameTooLong path) => .error (.refused .nameTooLong path)
  | .error _ => .ok none

/-- Does a path lead to a directory? -/
def isDirectory (files : Files) (path : List Char) : Except FileFault Bool :=
  (files.lookUp path).map fun entry => decide (entry = some .directory)

/-- The number of the file to which a path leads, if it leads to one. -/
def fileAt (files : Files) (path : List Char) : Except FileFault (Option Nat) :=
  (files.lookUp path).map (·.bind FileEntry.number?)

/-! ## Writing -/

/-- No files but the directories that lead to a working directory. -/
def emptyAt (workingDirectory : List Name) : Files :=
  (List.range workingDirectory.length).foldl
    (fun files n => files.set (workingDirectory.take (n + 1)) .directory) ⟨[], [], workingDirectory⟩

/-- A number that no file has. -/
def freshNumber (files : Files) : Nat :=
  (files.bindings.filterMap fun b => b.2.number?).foldr max 0 + 1

/-- Writes a file. One that is there is written to, whatever its names are; else there is a new one,
in a directory that has to be there. -/
def write (files : Files) (path : List Char) (bytes : List UInt8) : Except FileFault Files := do
  let location ← checked path (files.locate path)
  match files.find? location with
  | some (.file number) => return files.fill number bytes
  | some _ => throw (.refused .isDirectory path)
  | none => return (files.set location (.file files.freshNumber)).fill files.freshNumber bytes

/-- Makes a directory; the one that holds it has to be there. -/
def makeDirectory (files : Files) (path : List Char) : Except FileFault Files := do
  let location ← checked path (files.locateEntry path)
  match files.find? location with
  | some _ => throw (.refused .alreadyExists path)
  | none => return files.set location .directory

/-- Makes a directory unless it is there; the one that holds it has to be there. -/
def ensureDirectory (files : Files) (path : List Char) : Except FileFault Files :=
  match files.makeDirectory path with
  | .ok files => .ok files
  | .error fault => do
      if ← files.isDirectory path then return files else throw fault

/-- Files after an attempt to change them. -/
def attempted (files : Files) : Except FileFault Files → Files × Except FileFault Unit
  | .ok files => (files, .ok ())
  | .error fault => (files, .error fault)

/-- Makes a directory and those that hold it, as far as they are not there; the names are given
from the last to the first. -/
def makeDirectoriesFrom (files : Files) (slashes : Nat) :
    List Name → Files × Except FileFault Unit
  | [] => files.attempted (files.ensureDirectory (Path.mk slashes []).text)
  | name :: names =>
      let path := (Path.mk slashes (name :: names).reverse).text
      match files.ensureDirectory path with
      | .error (.refused .missing _) =>
          match files.makeDirectoriesFrom slashes names with
          | (files, .ok ()) => files.attempted (files.ensureDirectory path)
          | failed => failed
      | result => files.attempted result

/-- Makes a directory and those that hold it, as far as they are not there. What is made before a
fault stays. -/
def makeDirectories (files : Files) (path : Path) : Files × Except FileFault Unit :=
  files.makeDirectoriesFrom path.slashes path.names.reverse

/-- Makes a directory that is not there, and those that hold it as far as they are not there. What
is made before a fault stays. -/
def makeNewDirectory (files : Files) (path : Path) : Files × Except FileFault Unit :=
  match files.makeDirectory path.text with
  | .error (.refused .missing _) =>
      match files.makeDirectories path.parent with
      | (files, .ok ()) => files.attempted (files.makeDirectory path.text)
      | failed => failed
  | result => files.attempted result

/-! ## Searching -/

/-- All that there is below a location, by the names that lead to it from there. -/
def namesBelow (files : Files) (location : List Name) : List (List Name) :=
  files.bindings.filterMap fun b =>
    if location.isPrefixOf b.1 ∧ b.1 ≠ location then some (b.1.drop location.length) else none

/-- Those of some paths that lead to files. -/
def filesAmong (files : Files) : List Path → Except FileFault (List Path)
  | [] => return []
  | path :: paths => do
      match ← files.fileAt path.text with
      | some _ => return path :: (← files.filesAmong paths)
      | none => files.filesAmong paths

/-- All files below a directory that have one of some extensions, in the order of their names; none
if the directory is not there. Links below the directory are found as what they lead to, but nothing
is looked for in a directory to which one leads. -/
def candidates (files : Files) (root : Path) (extensions : List Text) :
    Except FileFault (List Path) := do
  if ← files.isDirectory root.text then
    let location ← checked root.text (files.locate root.text)
    let paths ← files.filesAmong <|
      (files.namesBelow location).map fun names => root.join ⟨0, names⟩
    let wanted := paths.filter fun p => hasExtension extensions p.suffix
    return sortBy (fun a b => namesBefore a.parts b.parts) wanted
  else return []

end Files

end ComponentMarkup
