import Mathlib.Data.List.Infix
import RemoteBackup.Core.Env

/-!
# `RemoteBackup.Utilities.Tools`: signs, digests and credentials

`utilities/tools.cpp`. The digest of a file needs the file system and is in
`RemoteBackup.Core.World`.
-/

set_option autoImplicit false

namespace RemoteBackup

open Lib

/-! ### Signs -/

/-- `tools::create_sign`: the path, a NUL, the digest. -/
def createSign (relativePath : Path) (digest : Bytes) : Bytes := relativePath ++ nul :: digest

/-- `match_and_parse` with the expression `(.*)\\x00(.*)`. The first group is greedy: it
takes as much as leaves a NUL behind it, and a dot matches every byte. -/
def matchAndParse (line : Bytes) : Option (Bytes × Bytes) :=
  (List.range (line.length + 1)).reverse.findSome? fun k =>
    match line.drop k with
    | b :: rest => if b = nul then some (line.take k, rest) else none
    | [] => none

/-- `tools::split_sign`. A sign that does not match throws `std::runtime_error`, which no
caller catches. -/
def splitSign (sign : Bytes) : Except Halt (Path × Bytes) :=
  match matchAndParse sign with
  | some pair => .ok pair
  | none => .error .uncaughtException

/-! ### Digests -/

/-- One upper-case digit of `boost::algorithm::hex`. -/
def hexDigit (n : Nat) : UInt8 := if n < 10 then UInt8.ofNat (48 + n) else UInt8.ofNat (55 + n)

/-- The digits of one integer, most significant first. -/
def hexDigits (count value : Nat) : Bytes :=
  (List.range count).map (fun i => hexDigit ((value >>> (4 * (count - 1 - i))) &&& 0xF))

/-- `tools::MD5_to_string`. -/
def md5ToString (digest : Fin 4 → UInt32) : Bytes :=
  (List.finRange 4).flatMap (fun i => hexDigits 8 (digest i).toNat)

/-- `tools::MD5_hash` of a string. -/
def md5HashString (env : Env) (str : Bytes) : Bytes := md5ToString (env.md5 str)

/-- `tools::SHA512_hash`. The length that is hashed is `str.size() - 1`. For the empty string
it wraps around, and OpenSSL reads past the string. -/
def sha512Hash (env : Env) (str : Bytes) : Except Halt Bytes :=
  if str = [] then .error .undefinedBehavior
  else .ok ((env.sha512 (str.take (str.length - 1))).flatMap fun b => hexDigits 2 b.toNat)

/-! ### Credentials -/

/-- The byte that separates a name from its digest. -/
def tab : UInt8 := 9

/-- The byte that ends a line. -/
def newline : UInt8 := 10

/-- The lines that repeated `getline` calls read: a final newline ends the last line and
starts no other. -/
def getlines (file : Bytes) : List Bytes :=
  let lines := file.splitOn newline
  if lines.getLast? = some [] then lines.dropLast else lines

/-- The scan of `verify_password`: it stops at the first line that contains the user name
and compares what follows that line's first tab. -/
def scanCredentials (username digest : Bytes) : List Bytes → Bool
  | [] => false
  | line :: lines =>
      if username <:+: line then
        if tab ∈ line then (line.dropWhile (fun b => b ≠ tab)).drop 1 = digest else false
      else scanCredentials username digest lines

/-- `tools::verify_password`. -/
def verifyPassword (env : Env) (username password : Bytes) : Except Halt Bool := do
  let digest ← sha512Hash env password
  match env.credentials with
  | none => pure false
  | some file => pure (scanCredentials username digest (getlines file))

end RemoteBackup
