import FlagEngine.Fault
import FlagEngine.Path
import FlagEngine.Text.Utf8

/-! A folder with files and folders in it, as far as loading looks at it. Paths lead from the folder
itself; what lies outside of it cannot be had. -/
namespace FlagEngine

/-- What lies at the end of a path from the folder. -/
inductive FolderItem
  | folder
  | file (bytes : List UInt8)

structure Folder where
  items : List (List String × FolderItem)

namespace Folder

def empty : Folder := ⟨[]⟩

/-- A name that ends in a slash is that of a folder. -/
def ofList (files : List (String × List UInt8)) : Folder :=
  ⟨files.map fun (name, bytes) =>
    ((Path.ofText name).parts, if name.endsWith "/" then .folder else .file bytes)⟩

def isWithin : List String → List String → Bool
  | [], _ => true
  | _, [] => false
  | a :: as, b :: bs => a == b && isWithin as bs

/-- The item at a place. Where others lie further in there is a folder. -/
def at? (d : Folder) (place : List String) : Option FolderItem :=
  match d.items.lookup place with
  | some i => some i
  | none => if place.isEmpty || d.items.any (isWithin place ·.1) then some .folder else none

/-- Walks along a path. Every step starts from a folder. -/
def walk (d : Folder) : List String → List String → Option FolderItem
  | place, [] => d.at? place
  | place, step :: steps =>
    match d.at? place with
    | some .folder =>
      if step = ".." then if place.isEmpty then none else walk d place.dropLast steps
      else walk d (place ++ [step]) steps
    | _ => none

def find? (d : Folder) (p : Path) : Option FolderItem :=
  if p.isRelative then d.walk [] p.parts else none

/-- Why a file cannot be read. -/
inductive Refusal
  | unreadable
  | fault (f : Fault)
  deriving DecidableEq, Repr

/-- All line ends become line feeds. -/
def withLineFeeds : List Char → List Char
  | '\r' :: '\n' :: cs => '\n' :: withLineFeeds cs
  | '\r' :: cs => '\n' :: withLineFeeds cs
  | c :: cs => c :: withLineFeeds cs
  | [] => []

def hasNul (p : Path) : Bool := p.text.toList.contains '\x00'

/-- Bytes that a name and a whole path may have. -/
def maxName : Nat := 255
def maxPath : Nat := 4095

def weight (s : String) : Nat := (Utf8.encode s.toList).length

/-- On its way along a path a walk is asked for a name that is too long. -/
def meetsLongName (d : Folder) : List String → List String → Bool
  | _, [] => false
  | place, step :: steps =>
    match d.at? place with
    | some .folder =>
      if step = ".." then !place.isEmpty && meetsLongName d place.dropLast steps
      else decide (maxName < weight step) || meetsLongName d (place ++ [step]) steps
    | _ => false

def isTooLong (d : Folder) (p : Path) : Bool :=
  decide (maxPath < weight p.text) || p.isRelative && d.meetsLongName [] p.parts

def readText (d : Folder) (p : Path) : Except Refusal String :=
  if hasNul p then .error (.fault .nulInPath)
  else if d.isTooLong p then .error .unreadable
  else
    match d.find? p with
    | some (.file bytes) =>
      match Utf8.decode? bytes with
      | some cs => .ok (String.ofList (withLineFeeds cs))
      | none => .error (.fault .notUtf8)
    | _ => .error .unreadable

/-- Whether something is there. Nothing has a name with a null byte, but to ask for a name that is
too long is a fault. -/
def has (d : Folder) (p : Path) : Except Fault Bool :=
  if hasNul p then .ok false
  else if d.isTooLong p then .error .nameTooLong
  else .ok (d.find? p).isSome

end Folder
end FlagEngine
