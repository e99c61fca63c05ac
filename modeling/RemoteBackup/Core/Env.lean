import RemoteBackup.Communication.Types
import RemoteBackup.Lib.FileTree

/-!
# `RemoteBackup.Core.Env`: what the server takes from outside

An `Env` gathers what one run of the server does not choose: the options that `main`
parses, the digest functions of Boost and OpenSSL, the hash of the standard library, and
the choices of the operating system.

`fails` decides whether a call on the file system reports an error that the tree itself
does not explain. It sees all earlier calls, so it stands for any pattern of faults, also for
a name that is too long. `NoFaults` is the file system without any.

A directory can be opened for reading, and then its bytes cannot be read. Where its end is, is
up to the file system: some give a small number, some the largest there is or an error.
-/

set_option autoImplicit false

namespace RemoteBackup

open Lib

/-- A call on the file system, with the paths that the handlers hand to it. -/
inductive FsCall where
  | createDirectories (p : Path)
  | openStream (p : Path)
  | openRead (p : Path)
  | remove (p : Path)
  | rename (p q : Path)
  | isEmpty (p : Path)
  | iterate (p : Path)
  | advance (p : Path)
  | isRegularFile (p : Path)
  deriving DecidableEq

/-- The surroundings of a run.

- `backupRoot`: the `backup-root` option, which `main` makes canonical;
- `credentials`: the contents of the credentials file, if it can be opened;
- `md5`, `sha512`: the digests, MD5 as the four integers of `digest_type`;
- `hash`: `std::hash<std::string>`;
- `spill`: how many of a stream's buffered bytes a write hands to the system at once;
- `visit`: the order in which a directory iterator meets the entries of a tree;
- `directoryLength`: the length that a directory shows when it is opened as a file, given the
  calls before, latest first. Nothing where it is none that a vector of bytes can have;
- `fails`: whether a call fails, given the calls before it, latest first. -/
structure Env where
  backupRoot : Loc
  credentials : Option Bytes
  md5 : Bytes → Fin 4 → UInt32
  sha512 : Bytes → Bytes
  hash : Bytes → UInt64
  spill : Bytes → Nat
  visit : List Loc → List Loc
  visit_perm : ∀ ls, (visit ls).Perm ls
  directoryLength : List FsCall → Path → Option Nat
  fails : List FsCall → FsCall → Bool

/-- A file system on which no call fails but for the state of the tree. -/
def Env.NoFaults (env : Env) : Prop := ∀ calls call, env.fails calls call = false

/-- Surroundings without faults whose digests are read from tables, for running the model on
concrete inputs. A stream buffers what it is given, a directory iterator follows the order of
the tree, and no directory shows a length. -/
def Env.ofTables (backupRoot : Loc) (credentials : Option Bytes)
    (md5 : List (Bytes × List UInt32)) (sha512 : List (Bytes × Bytes)) : Env where
  backupRoot := backupRoot
  credentials := credentials
  md5 := fun bytes i => ((md5.lookup bytes).getD []).getD i.val 0
  sha512 := fun bytes => (sha512.lookup bytes).getD []
  hash := fun bytes => bytes.foldl (fun h b => h * 257 + b.toUInt64 + 1) 0
  spill := fun _ => 0
  visit := id
  visit_perm := fun _ => List.Perm.refl _
  directoryLength := fun _ _ => none
  fails := fun _ _ => false

/-- The same on a file system whose directories show this length. -/
def Env.withDirectories (env : Env) (length : Nat) : Env :=
  { env with directoryLength := fun _ _ => some length }

/-- An environment given by tables has no faults. -/
theorem Env.noFaults_ofTables (backupRoot : Loc) (credentials : Option Bytes)
    (md5 : List (Bytes × List UInt32)) (sha512 : List (Bytes × Bytes)) :
    (Env.ofTables backupRoot credentials md5 sha512).NoFaults := fun _ _ => rfl

end RemoteBackup
