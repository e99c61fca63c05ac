import RemoteBackup.Communication.Types

/-!
# `RemoteBackup.Directory.Dir`: a session's view of its directory

`directory/resource.cpp` and `directory/dir.cpp`. A `Dir` maps paths to resources. The
source's map is an `unordered_map` whose hash is that of the path's string and whose
equality is that of the path's elements. A lookup finds an entry that agrees in both
(`sameKey`); `hash` is `std::hash<std::string>`.

No `dir` is made with concurrent access, so its mutex is never taken.
-/

set_option autoImplicit false

namespace RemoteBackup

open Lib

/-- `resource`: whether client and server agree on the file, and the file's digest. -/
structure Resource where
  synced : Bool
  digest : Bytes
  deriving DecidableEq

/-- `dir`. -/
structure Dir where
  path : Path
  content : List (Path × Resource)
  deriving DecidableEq

/-- Two paths that the map takes for one key. -/
def sameKey (hash : Bytes → UInt64) (p q : Path) : Prop :=
  hash p = hash q ∧ elements p = elements q

/-- Whether two paths are one key can be evaluated. -/
instance (hash : Bytes → UInt64) (p q : Path) : Decidable (sameKey hash p q) := by
  unfold sameKey; infer_instance

namespace Dir

/-- `dir::get_instance`. -/
def getInstance (path : Path) : Dir := ⟨path, []⟩

variable (hash : Bytes → UInt64)

/-- `dir::rsrc`. -/
def rsrc (d : Dir) (p : Path) : Option Resource :=
  (d.content.find? (fun e => sameKey hash e.1 p)).map Prod.snd

/-- `dir::contains`. -/
def contains (d : Dir) (p : Path) : Bool := d.content.any (fun e => sameKey hash e.1 p)

/-- `dir::insert_or_assign`. The flag is true when an entry was inserted. An entry that is
assigned keeps its key. -/
def insertOrAssign (d : Dir) (p : Path) (r : Resource) : Dir × Bool :=
  if d.contains hash p then
    ({ d with content := d.content.map (fun e => if sameKey hash e.1 p then (e.1, r) else e) },
      false)
  else ({ d with content := d.content ++ [(p, r)] }, true)

/-- `dir::erase`. The flag is true when an entry was erased. -/
def erase (d : Dir) (p : Path) : Dir × Bool :=
  ({ d with content := d.content.filter (fun e => ¬ sameKey hash e.1 p) }, d.contains hash p)

/-- `dir::for_each`: `fn` is called on one entry after the other. -/
def forEach {σ : Type} (d : Dir) (fn : σ → Path × Resource → σ) (s : σ) : σ := d.content.foldl fn s

/-- `dir::clear`. -/
def clear (d : Dir) : Dir := { d with content := [] }

end Dir

end RemoteBackup
