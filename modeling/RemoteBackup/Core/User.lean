import RemoteBackup.Directory.Dir

/-!
# `RemoteBackup.Core.User`: the session data of a connection

`core/user.h`. Class `user` declares no constructor, and the constructor of `connection` does
not mention its `user_`. A fresh user has empty strings and a null `dir_ptr_`, and its two
flags are whatever the memory held.
-/

set_option autoImplicit false

namespace RemoteBackup

open Lib

/-- `user`. `dir` is `dir_ptr_`, nothing when it is null. -/
structure User where
  id : Bytes
  username : Bytes
  ip : Bytes
  isAuth : Bool
  isSynced : Bool
  dir : Option Dir
  deriving DecidableEq

/-- The user of a fresh connection. `isAuth` and `isSynced` are the values found in the
memory of `is_auth_` and `is_synced_`; `connection::start` sets the address. -/
def User.fresh (isAuth isSynced : Bool) (ip : Bytes) : User where
  id := []
  username := []
  ip := ip
  isAuth := isAuth
  isSynced := isSynced
  dir := none

end RemoteBackup
