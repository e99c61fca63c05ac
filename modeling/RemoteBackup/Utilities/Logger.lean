import RemoteBackup.Core.User

/-!
# `RemoteBackup.Utilities.Logger`: the lines of the log

`utilities/logger.cpp`, without the time that stands in front of each line. A result is
logged under the names of its codes. A byte that is no `MSG_TYPE` has no name: the source then
dereferences the end of its table.
-/

set_option autoImplicit false

namespace RemoteBackup

open Lib

/-- `RESULT_TYPE`. -/
inductive ResultType where
  | ok
  | err
  | none
  deriving DecidableEq

/-- `logger::msg_type_str_map_`. -/
def msgTypeStrMap : List (UInt8 × Bytes) :=
  [(MsgType.none.toByte, ascii "-"), (MsgType.create.toByte, ascii "CREATE"),
    (MsgType.update.toByte, ascii "UPDATE"), (MsgType.erase.toByte, ascii "ERASE"),
    (MsgType.sync.toByte, ascii "SYNC"), (MsgType.auth.toByte, ascii "AUTH"),
    (MsgType.keepAlive.toByte, ascii "KEEP_ALIVE")]

/-- `logger::res_type_str_map_`. It has every `RESULT_TYPE`. -/
def resTypeStr : ResultType → Bytes
  | .ok => ascii "OK"
  | .err => ascii "ERR"
  | .none => ascii "-"

/-- The user in front of a line: the name, if there is one, and the address. -/
def logUser (u : User) : Bytes :=
  ascii "[" ++ u.username ++ (if u.username = [] then [] else ascii "@") ++ u.ip ++ ascii "]["

/-- `logger::log` of a message. -/
def logMessage (u : User) (message : Bytes) : Bytes := logUser u ++ message ++ ascii "]"

/-- `logger::log` of a result. -/
def logResult (u : User) (msgType : UInt8) (messageResult connectionResult : ResultType) :
    Except Halt Bytes :=
  match msgTypeStrMap.lookup msgType with
  | some str =>
      .ok (logUser u ++ ascii "TYPE: " ++ str ++ ascii " RES: " ++ resTypeStr messageResult ++
        ascii " CON: " ++ resTypeStr connectionResult ++ ascii "]")
  | none => .error .undefinedBehavior

end RemoteBackup
