import Chronicle.Json.Basic

/-!
# Reading structures from JSON values

A structure with named fields comes from an object, in which other names are passed
over and no field is repeated, or from a list of the fields in their order. A choice
without content comes from its name, or from an object with that one name and `null`.
-/

namespace Chronicle.Json

/-- The value of a member that occurs at most once: none if it is repeated. -/
def unique? (name : String) (ms : List (String × Json)) : Option (Option Json) :=
  match ms.filter fun (n, _) => n == name with
  | [] => some none
  | [(_, v)] => some (some v)
  | _ => none

/-- The values of the named fields, in that order, missing ones as `none`. -/
def fields? (names : List String) : Json → Option (List (Option Json))
  | object ms => names.mapM fun name => unique? name ms
  | array vs =>
    if vs.length ≤ names.length then
      some (vs.map some ++ List.replicate (names.length - vs.length) none)
    else none
  | _ => none

/-- A natural number below a limit. -/
def natural? (limit : Nat) : Json → Option Nat
  | natural n => if n < limit then some n else none
  | _ => none

/-- A 64-bit number. -/
def uint64? (v : Json) : Option UInt64 := (v.natural? UInt64.size).map UInt64.ofNat

/-- A 32-bit number. -/
def uint32? (v : Json) : Option UInt32 := (v.natural? UInt32.size).map UInt32.ofNat

/-- A text. -/
def string? : Json → Option String
  | string s => some s
  | _ => none

/-- A truth value. -/
def bool? : Json → Option Bool
  | bool b => some b
  | _ => none

/-- A list, each item read in the same way. -/
def list? {α : Type} (read : Json → Option α) : Json → Option (List α)
  | array vs => vs.mapM read
  | _ => none

/-- A table from names to values, each value read in the same way. -/
def table? {α : Type} (read : Json → Option α) : Json → Option (List (String × α))
  | object ms => ms.mapM fun (name, v) => (read v).map fun a => (name, a)
  | _ => none

/-- The name of a choice without content. -/
def choice? : Json → Option String
  | string s => some s
  | object [(name, null)] => some name
  | _ => none

end Chronicle.Json
