import RemoteBackup.Lib.PathText

/-!
# `RemoteBackup.Communication.Types`: the codes on the wire

The enumerations of `communication/types.h`. A message and its TLVs carry these as one
byte, which a client chooses freely, so the handlers compare bytes: `toByte` is the byte
of an enumerator.

`Halt` names the ways the server process stops in the middle of a request.
-/

set_option autoImplicit false

namespace RemoteBackup

/-- `MSG_TYPE`. -/
inductive MsgType where
  | none
  | create
  | update
  | erase
  | sync
  | auth
  | keepAlive
  deriving DecidableEq

/-- The byte on the wire. -/
def MsgType.toByte : MsgType → UInt8
  | .none => 0
  | .create => 1
  | .update => 2
  | .erase => 3
  | .sync => 4
  | .auth => 5
  | .keepAlive => 6

/-- `TLV_TYPE`. -/
inductive TlvType where
  | usrn
  | pswd
  | item
  | end_
  | ok
  | error
  | content
  deriving DecidableEq

/-- The byte on the wire. -/
def TlvType.toByte : TlvType → UInt8
  | .usrn => 0
  | .pswd => 1
  | .item => 2
  | .end_ => 3
  | .ok => 4
  | .error => 5
  | .content => 6

/-- `ERR_TYPE`. -/
inductive ErrType where
  | none
  | noContent
  | msgTypeRejected
  | createNoItem
  | createNoContent
  | createAlreadyExist
  | createFailed
  | createNoMatch
  | updateNoItem
  | updateNoContent
  | updateNotExist
  | updateAlreadyUpdated
  | updateFailed
  | updateNoMatch
  | eraseNoItem
  | eraseNoMatch
  | syncFailed
  | authNoUsrn
  | authNoPswd
  | authFailed
  deriving DecidableEq

/-- The number that stands for the error on the wire. -/
def ErrType.code : ErrType → Nat
  | .none => 0
  | .noContent => 1
  | .msgTypeRejected => 2
  | .createNoItem => 101
  | .createNoContent => 102
  | .createAlreadyExist => 103
  | .createFailed => 104
  | .createNoMatch => 105
  | .updateNoItem => 201
  | .updateNoContent => 202
  | .updateNotExist => 203
  | .updateAlreadyUpdated => 204
  | .updateFailed => 205
  | .updateNoMatch => 206
  | .eraseNoItem => 301
  | .eraseNoMatch => 302
  | .syncFailed => 401
  | .authNoUsrn => 501
  | .authNoPswd => 502
  | .authFailed => 503

/-- How the process stops in the middle of a request: by an access the language leaves
undefined, by `std::exit(EXIT_FAILURE)`, or by an exception that no caller catches. -/
inductive Halt where
  | undefinedBehavior
  | exitFailure
  | uncaughtException
  deriving DecidableEq

end RemoteBackup
