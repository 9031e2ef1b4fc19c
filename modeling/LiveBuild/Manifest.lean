import LiveBuild.Member.Wire
import LiveBuild.Text.Utf8

/-!
# Manifests

A manifest lists the types of a library and their members. It comes as the bytes that a library
returns: they end at the first NUL, invalid UTF-8 is replaced, and no bytes at all are the empty
manifest.

* `Manifest.read?`: the manifest of the bytes that a library returned;
* `Manifest.membersOf`: the members of the first type of a name.
-/

namespace LiveBuild

/-- A type and its members. -/
structure TypeEntry where
  name : String
  members : List Member
  deriving DecidableEq, Repr

/-- The types of a library. -/
abbrev Manifest := List TypeEntry

/-- The bytes of a text that ends at its first NUL. -/
def untilNul (bytes : List UInt8) : List UInt8 := bytes.takeWhile (· != 0)

namespace TypeEntry

/-- The type of a tree whose reader may open `levels` levels. -/
def ofJson? : Nat → Json → Option TypeEntry
  | 0, _ => none
  | levels + 1, j => do
    match ← j.slots? ["name", "members"] with
    | [some name, none] => return ⟨← name.text?, []⟩
    | [some name, some members] => return ⟨← name.text?, ← members.list? levels Member.ofJson?⟩
    | _ => none

end TypeEntry

namespace Manifest

/-- The manifest of a tree whose reader may open `levels` levels. -/
def ofJson? : Nat → Json → Option Manifest
  | 0, _ => none
  | levels + 1, j => do
    match ← j.slots? ["types"] with
    | [none] => return []
    | [some types] => types.list? levels TypeEntry.ofJson?
    | _ => none

/-- The manifest that a library returned; `none` stands for no bytes. -/
def read? : Option (List UInt8) → Option Manifest
  | none => some []
  | some bytes => do
    ofJson? Json.maxLevels (← Json.parse? (Utf8.decodeLossy (untilNul bytes)).toList)

/-- The members of the first type with the given name. -/
def membersOf (types : Manifest) (name : String) : List Member :=
  match types.find? (·.name == name) with
  | some t => t.members
  | none => []

end Manifest

end LiveBuild
