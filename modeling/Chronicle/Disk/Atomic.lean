import Chronicle.Disk.Basic

/-!
# Files that are there in full or not at all

The bytes go to a file beside, which is then given the path. A write that stops in
between leaves the file beside, and the path as it was.
-/

namespace Chronicle.Disk

/-- The path of the file beside. -/
def besidePath (p : Path) : Path :=
  p.dropLast ++ [Path.withExtension (p.getLast?.getD "") "tmp"]

/-- Gives a path a file with the bytes (`write_atomic`). -/
def writeAtomic (d : Disk) (p : Path) (bs : Bytes) : Result Unit :=
  let beside := besidePath p
  match d.openOrCreate beside with
  | (.error f, d) => (.error f, d)
  | (.ok id, d) =>
    match d.truncate id 0 with
    | (.error f, d) => (.error f, d)
    | (.ok (), d) =>
      match d.append id bs with
      | (.error f, d) => (.error f, d)
      | (.ok (), d) =>
        match d.sync with
        | (.error f, d) => (.error f, d)
        | (.ok (), d) => d.rename beside p

end Chronicle.Disk
