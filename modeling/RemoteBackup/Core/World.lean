import RemoteBackup.Utilities.Tools

/-!
# `RemoteBackup.Core.World`: the disk, the open streams and the calls made

The state that all sessions share: the file tree, the `open_streams` table of the request
handler, and a record of the calls made on the file system.

A `Stream` is an `ofstream` opened for appending. `inode` is the file it writes to, or
nothing when the open failed or the stream was closed, and then `!*ofs_ptr` holds.
`pending` are the bytes in its own buffer. A write hands some of them to the system
(`Env.spill`), a flush or a close hands over all. The table is keyed by the user's id: the
equality and the hash of `user` look at nothing else.
-/

set_option autoImplicit false

namespace RemoteBackup

open Lib

/-- An `ofstream` in append mode. -/
structure Stream where
  inode : Option Nat
  pending : Bytes
  deriving DecidableEq

/-- The shared state. Every open stream writes to an inode that is in use, so a new file
never gets the inode of a stream whose file was removed. -/
structure World where
  disk : Disk
  streams : Bytes → Option Stream
  calls : List FsCall
  streams_fresh : ∀ id s i, streams id = some s → s.inode = some i → i < disk.next

/-- What a `try` block of a handler can see thrown: the `filesystem_error` it catches, or
another `std::exception`, `std::length_error` or `std::bad_alloc`. -/
inductive Thrown where
  | filesystemError
  | otherException
  deriving DecidableEq

namespace World

/-- The world when the server starts: a tree, no stream, no call made. -/
def ofDisk (d : Disk) : World where
  disk := d
  streams := fun _ => none
  calls := []
  streams_fresh := by simp

/-- The world after a call was made. -/
def record (w : World) (c : FsCall) : World := { w with calls := c :: w.calls }

/-- The world with a tree that uses at least the same inodes. -/
def withDisk (w : World) (d : Disk) (h : w.disk.next ≤ d.next) : World :=
  { w with
    disk := d
    streams_fresh := fun id s i hs hi => Nat.lt_of_lt_of_le (w.streams_fresh id s i hs hi) h }

/-- The world with another stream, or none, for a user. -/
def withStream (w : World) (id : Bytes) (s : Option Stream)
    (h : ∀ t i, s = some t → t.inode = some i → i < w.disk.next) : World :=
  { w with
    streams := Function.update w.streams id s
    streams_fresh := by
      intro k t i ht hi
      by_cases hk : k = id
      · subst hk
        rw [Function.update_self] at ht
        exact h t i ht hi
      · rw [Function.update_of_ne hk] at ht
        exact w.streams_fresh k t i ht hi }

/-! ### Streams -/

/-- Hand the first `k` buffered bytes of a user's stream to the system. -/
def drain (w : World) (id : Bytes) (k : Nat) : World :=
  match h : w.streams id with
  | some ⟨some i, pending⟩ =>
      (w.withDisk (w.disk.appendTo i (pending.take k)) (Nat.le_refl _)).withStream id
        (some ⟨some i, pending.drop k⟩) (by
          intro t j ht hj
          cases ht
          exact w.streams_fresh id _ j h hj)
  | _ => w

/-- Put bytes into the buffer of a user's stream. -/
def buffer (w : World) (id : Bytes) (bytes : Bytes) : World :=
  match h : w.streams id with
  | some ⟨some i, pending⟩ =>
      w.withStream id (some ⟨some i, pending ++ bytes⟩) (by
        intro t j ht hj
        cases ht
        exact w.streams_fresh id _ j h hj)
  | _ => w

/-- The buffered bytes of a user's stream. -/
def pendingOf (w : World) (id : Bytes) : Bytes :=
  match w.streams id with
  | some s => s.pending
  | none => []

/-- Write through an `ostreambuf_iterator` of the user's stream. -/
def write (env : Env) (w : World) (id : Bytes) (bytes : Bytes) : World :=
  let w := w.buffer id bytes
  w.drain id (env.spill (w.pendingOf id))

/-- `ofstream::flush`. -/
def flush (w : World) (id : Bytes) : World := w.drain id (w.pendingOf id).length

/-- `ofstream::close`. The stream stays in the table, closed. -/
def close (w : World) (id : Bytes) : World :=
  (w.flush id).withStream id (some ⟨none, []⟩) (by
    intro t i ht hi
    cases ht
    exact absurd hi (by simp))

/-- `open_streams::erase_stream`. The last owner of a stream closes it. -/
def eraseStream (w : World) (id : Bytes) : World :=
  (w.flush id).withStream id none (by
    intro t i ht
    exact absurd ht (by simp))

/-- The constructor `ofstream(path, binary | app)`: the inode, if the file opens. -/
def openStream (env : Env) (w : World) (p : Path) : World × Option Nat :=
  if env.fails w.calls (.openStream p) then (w.record (.openStream p), none)
  else
    ((w.record (.openStream p)).withDisk (w.disk.openAppend p).1 (w.disk.openAppend_next_le p),
      (w.disk.openAppend p).2)

/-- The opened file has a number that is in use. -/
theorem openStream_lt {env : Env} {w : World} {p : Path} {i : Nat}
    (h : (w.openStream env p).2 = some i) : i < (w.openStream env p).1.disk.next := by
  unfold openStream at h ⊢
  split
  · rename_i hf
    rw [if_pos hf] at h
    exact absurd h (by simp)
  · rename_i hf
    rw [if_neg hf] at h
    exact Disk.openAppend_lt h

/-- `open_streams::get_stream`. The new stream is built before the table is searched, and
it is dropped when the user has one. The flag is true when the new one went in. -/
def getStream (env : Env) (w : World) (id : Bytes) (p : Path) : World × Bool :=
  match (w.openStream env p).1.streams id with
  | some _ => ((w.openStream env p).1, false)
  | none =>
      ((w.openStream env p).1.withStream id (some ⟨(w.openStream env p).2, []⟩) (by
        intro t i ht hi
        cases ht
        exact openStream_lt hi), true)

/-- `!ofs_ptr || !*ofs_ptr` is false: the user's stream in the table can be written to. -/
def usable (w : World) (id : Bytes) : Bool :=
  match w.streams id with
  | some s => s.inode.isSome
  | none => false

/-! ### Calls that do not open a stream -/

/-- `create_directories(p, ec)`. The flag is true when `ec` is clear. -/
def createDirectories (env : Env) (w : World) (p : Path) : World × Bool :=
  if env.fails w.calls (.createDirectories p) then (w.record (.createDirectories p), false)
  else
    ((w.record (.createDirectories p)).withDisk (w.disk.createDirectories p).1
      (Nat.le_of_eq (w.disk.createDirectories_next p).symm), (w.disk.createDirectories p).2)

/-- `remove(p, ec)`. -/
def remove (env : Env) (w : World) (p : Path) : World × Bool :=
  if env.fails w.calls (.remove p) then (w.record (.remove p), false)
  else
    ((w.record (.remove p)).withDisk (w.disk.remove p).1
      (Nat.le_of_eq (w.disk.remove_next p).symm), (w.disk.remove p).2)

/-- `rename(p, q, ec)`. -/
def rename (env : Env) (w : World) (p q : Path) : World × Bool :=
  if env.fails w.calls (.rename p q) then (w.record (.rename p q), false)
  else
    ((w.record (.rename p q)).withDisk (w.disk.rename p q).1
      (Nat.le_of_eq (w.disk.rename_next p q).symm), (w.disk.rename p q).2)

/-- `is_empty(p, ec)`. Nothing when `ec` is set. -/
def isEmpty (env : Env) (w : World) (p : Path) : World × Option Bool :=
  (w.record (.isEmpty p),
    if env.fails w.calls (.isEmpty p) then none else w.disk.isEmpty p)

/-- `tools::MD5_hash` of a path: the digest of the relative path and the file's bytes. A
directory that shows a length is hashed as that many zero bytes, because the vector has them
and nothing is read over them. Where `tellg()` gives no length that a vector can have, as when
the path does not open, the constructor of the vector throws. -/
def md5Hash (env : Env) (w : World) (absolutePath relativePath : Path) :
    World × Except Thrown Bytes :=
  (w.record (.openRead absolutePath),
    if env.fails w.calls (.openRead absolutePath) then .error .otherException
    else
      match w.disk.status absolutePath with
      | some (.file i) => .ok (md5HashString env (relativePath ++ w.disk.content i))
      | some .dir =>
          match env.directoryLength w.calls absolutePath with
          | some n => .ok (md5HashString env (relativePath ++ List.replicate n 0))
          | none => .error .otherException
      | none => .error .otherException)

end World

end RemoteBackup
