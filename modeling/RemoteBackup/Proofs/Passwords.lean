import Mathlib.Data.Set.Function
import RemoteBackup.Proofs.Credentials
import RemoteBackup.Proofs.Requests

/-!
# `RemoteBackup.Proofs.Passwords`: which passwords open an account

`SHA512_hash` leaves out the last byte of a password, so passwords that differ there only have one
digest. Of the empty password there is no last byte to leave out.

* `verifyPassword_eq_true_iff`: when a password is accepted, read off the credentials file.
* `one_password_iff`: no password is hashed as a whole, and when two passwords are not both
  accepted.
* `not_one_password`: `bobby` gets in with `hunter2` and with `hunter3`.
-/

set_option autoImplicit false

namespace RemoteBackup.Proofs

open Lib

variable {env : Env}

/-! ### Hexadecimal digits -/

/-- The digits of a byte string. -/
def hex (bytes : Bytes) : Bytes := bytes.flatMap fun b => hexDigits 2 b.toNat

/-- The value of a digit. -/
def hexValue (digit : UInt8) : Nat := if digit < 58 then digit.toNat - 48 else digit.toNat - 55

/-- A digit is read back as its value. -/
theorem hexValue_hexDigit {n : Nat} (h : n < 16) : hexValue (hexDigit n) = n := by
  revert n
  decide

/-- A byte in two digits. -/
theorem hexDigits_two (b : UInt8) :
    hexDigits 2 b.toNat = [hexDigit (b.toNat / 16), hexDigit (b.toNat % 16)] := by
  have hlt := b.toNat_lt
  have hhigh : (b.toNat >>> 4) &&& 15 = b.toNat / 16 := by
    rw [Nat.shiftRight_eq_div_pow, Nat.and_two_pow_sub_one_eq_mod _ 4]
    omega
  have hlow : b.toNat &&& 15 = b.toNat % 16 := Nat.and_two_pow_sub_one_eq_mod _ 4
  show [hexDigit ((b.toNat >>> 4) &&& 15), hexDigit (b.toNat &&& 15)] = _
  rw [hhigh, hlow]

/-- No bytes, no digits. -/
@[simp] theorem hex_nil : hex [] = [] := rfl

/-- The digits of a byte come in front. -/
@[simp] theorem hex_cons (b : UInt8) (bytes : Bytes) :
    hex (b :: bytes) = hexDigit (b.toNat / 16) :: hexDigit (b.toNat % 16) :: hex bytes := by
  rw [hex, List.flatMap_cons, hexDigits_two]
  rfl

/-- The digits determine the bytes. Induction on both. -/
theorem hex_injective {a b : Bytes} (h : hex a = hex b) : a = b := by
  induction a generalizing b with
  | nil =>
      cases b with
      | nil => rfl
      | cons y b => simp at h
  | cons x a ih =>
      cases b with
      | nil => simp at h
      | cons y b =>
          simp only [hex_cons, List.cons.injEq] at h
          obtain ⟨hhigh, hlow, hrest⟩ := h
          have hx := x.toNat_lt
          have hy := y.toNat_lt
          replace hhigh := congrArg hexValue hhigh
          replace hlow := congrArg hexValue hlow
          rw [hexValue_hexDigit (by omega), hexValue_hexDigit (by omega)] at hhigh hlow
          rw [ih hrest, UInt8.toNat_inj.mp (show x.toNat = y.toNat by omega)]

/-! ### What is hashed -/

/-- The digest of a password is that of all its bytes. -/
def HashesAll (env : Env) (str : Bytes) : Prop := sha512Hash env str = .ok (hex (env.sha512 str))

/-- The last byte is left out. -/
theorem sha512Hash_eq {str : Bytes} (h : str ≠ []) :
    sha512Hash env str = .ok (hex (env.sha512 str.dropLast)) := by
  rw [sha512Hash, if_neg h, List.dropLast_eq_take]
  rfl

/-- So no string is hashed as a whole. -/
theorem not_hashesAll {str : Bytes} (hinj : Set.InjOn env.sha512 {str, str.dropLast}) :
    ¬ HashesAll env str := by
  intro h
  by_cases hempty : str = []
  · rw [HashesAll, sha512Hash, if_pos hempty] at h
    cases h
  · rw [HashesAll, sha512Hash_eq hempty] at h
    have hsame := hinj (by simp) (by simp) (hex_injective (Except.ok.inj h))
    have hlen := congrArg List.length hsame
    have hpos := List.length_pos_of_ne_nil hempty
    rw [List.length_dropLast] at hlen
    omega

/-! ### What the file grants -/

/-- The first line that contains the user name has this digest behind its first tab. -/
def Grants (file username digest : Bytes) : Prop :=
  ∃ before name after, getlines file = before ++ (name ++ tab :: digest) :: after ∧
    (∀ line ∈ before, ¬ username <:+: line) ∧ username <:+: name ++ tab :: digest ∧ tab ∉ name

/-- The scan says yes when the first line that contains the user name ends in the digest, behind a
name and a tab. -/
theorem scanCredentials_eq_true_iff {username digest : Bytes} {lines : List Bytes} :
    scanCredentials username digest lines = true ↔
      ∃ before name after, lines = before ++ (name ++ tab :: digest) :: after ∧
        (∀ line ∈ before, ¬ username <:+: line) ∧ username <:+: name ++ tab :: digest ∧
        tab ∉ name := by
  induction lines with
  | nil => simp [scanCredentials]
  | cons line lines ih =>
      rw [scanCredentials]
      split
      · rename_i hin
        -- The scan stops here, whatever comes behind.
        constructor
        · intro h
          split at h
          · rename_i htab
            obtain ⟨name, found, rfl, hname⟩ := List.eq_append_cons_of_mem htab
            have hfound := @digest_of_credentialLine (name, found) hname
            rw [credentialLine] at hfound
            rw [hfound, decide_eq_true_eq] at h
            subst h
            exact ⟨[], name, lines, rfl, by simp, hin, hname⟩
          · cases h
        · rintro ⟨before, name, after, hlines, hbefore, -, hname⟩
          cases before with
          | cons first before =>
              obtain ⟨rfl, -⟩ := List.cons.inj hlines
              exact absurd hin (hbefore _ List.mem_cons_self)
          | nil =>
              obtain ⟨rfl, -⟩ := List.cons.inj hlines
              have hfound := @digest_of_credentialLine (name, digest) hname
              rw [credentialLine] at hfound
              rw [if_pos (by simp), hfound, decide_eq_true_eq]
      · rename_i hout
        rw [ih]
        constructor
        · rintro ⟨before, name, after, rfl, hbefore, hin, hname⟩
          refine ⟨line :: before, name, after, rfl, ?_, hin, hname⟩
          intro l hl
          rcases List.mem_cons.mp hl with rfl | hl
          · exact hout
          · exact hbefore l hl
        · rintro ⟨before, name, after, hlines, hbefore, hin, hname⟩
          cases before with
          | nil =>
              obtain ⟨rfl, -⟩ := List.cons.inj hlines
              exact absurd hin hout
          | cons first before =>
              obtain ⟨rfl, rfl⟩ := List.cons.inj hlines
              exact ⟨before, name, after, rfl, fun l hl => hbefore l (List.mem_cons_of_mem _ hl),
                hin, hname⟩

/-- A file grants a user one digest. -/
theorem scanCredentials_unique {username digest digest' : Bytes} {lines : List Bytes}
    (h : scanCredentials username digest lines = true)
    (h' : scanCredentials username digest' lines = true) : digest = digest' := by
  induction lines with
  | nil => cases h
  | cons line lines ih =>
      rw [scanCredentials] at h h'
      split at h
      · rename_i hin
        rw [if_pos hin] at h'
        split at h
        · rename_i htab
          rw [if_pos htab, decide_eq_true_eq] at h'
          rw [decide_eq_true_eq] at h
          exact h.symm.trans h'
        · cases h
      · rename_i hout
        rw [if_neg hout] at h'
        exact ih h h'

/-- A file grants a login exactly when the scan of its lines says yes. -/
theorem grants_iff_scan {file username digest : Bytes} :
    Grants file username digest ↔ scanCredentials username digest (getlines file) = true :=
  scanCredentials_eq_true_iff.symm

/-- A user has one digest. -/
theorem Grants.unique {file username digest digest' : Bytes} (h : Grants file username digest)
    (h' : Grants file username digest') : digest = digest' :=
  scanCredentials_unique (grants_iff_scan.mp h) (grants_iff_scan.mp h')

/-! ### Who gets in -/

/-- The empty password is hashed beyond its end, and every other password has an answer. -/
theorem verifyPassword_returns_iff {username password : Bytes} :
    (∃ b, verifyPassword env username password = .ok b) ↔ password ≠ [] := by
  constructor
  · rintro ⟨b, hb⟩ rfl
    cases hb
  · intro h
    rw [verifyPassword, sha512Hash_eq h]
    cases env.credentials with
    | none => exact ⟨_, rfl⟩
    | some file => exact ⟨_, rfl⟩

/-- A password is accepted when the file grants the digest of what is hashed of it. -/
theorem verifyPassword_eq_true_iff {username password : Bytes} :
    verifyPassword env username password = .ok true ↔
      password ≠ [] ∧ ∃ file, env.credentials = some file ∧
        Grants file username (hex (env.sha512 password.dropLast)) := by
  by_cases h : password = []
  · subst h
    constructor
    · intro hverify
      cases hverify
    · exact fun hne => absurd rfl hne.1
  · rw [verifyPassword, sha512Hash_eq h]
    cases hfile : env.credentials with
    | none => simp [bind, Except.bind, pure, Except.pure]
    | some file => simp [bind, Except.bind, pure, Except.pure, h, grants_iff_scan]

/-- Both passwords have an answer, and they are not both accepted. -/
def OpensOne (env : Env) (username p q : Bytes) : Prop :=
  (∃ b, verifyPassword env username p = .ok b) ∧ (∃ b, verifyPassword env username q = .ok b) ∧
    ¬ (verifyPassword env username p = .ok true ∧ verifyPassword env username q = .ok true)

/-- Neither password is empty, and when they differ in the last byte only, the file does not grant
the digest of the bytes before it. -/
def ToldApart (env : Env) (username p q : Bytes) : Prop :=
  p ≠ [] ∧ q ≠ [] ∧ (p.dropLast = q.dropLast → ∀ file, env.credentials = some file →
    ¬ Grants file username (hex (env.sha512 p.dropLast)))

/-- **When one password opens an account.** For every credentials file, user name and two
passwords, when SHA-512 is injective on them and on what is hashed of them: the password is not
hashed as a whole, and the two are not both accepted if and only if the code tells them apart. -/
theorem one_password_iff (username p q : Bytes)
    (hinj : Set.InjOn env.sha512 {p, q, p.dropLast, q.dropLast}) :
    ¬ HashesAll env p ∧ (OpensOne env username p q ↔ ToldApart env username p q) := by
  refine ⟨not_hashesAll (hinj.mono ?_), ?_⟩
  · rintro x (rfl | rfl) <;> simp
  rw [OpensOne, verifyPassword_returns_iff, verifyPassword_returns_iff]
  refine and_congr_right fun hp => and_congr_right fun hq => ?_
  simp only [verifyPassword_eq_true_iff, hp, hq, ne_eq, not_false_eq_true, true_and]
  constructor
  · intro h hsame file hfile hgrants
    refine h ⟨⟨file, hfile, hgrants⟩, file, hfile, ?_⟩
    rwa [← hsame]
  · rintro h ⟨⟨file, hfile, hgrants⟩, file', hfile', hgrants'⟩
    obtain rfl : file = file' := Option.some.inj (hfile.symm.trans hfile')
    -- One line, so one digest, so the same bytes were hashed.
    have hsame := hinj (by simp) (by simp) (hex_injective (hgrants.unique hgrants'))
    exact h hsame file hfile hgrants

/-! ### Two passwords of one account -/

/-- An AUTH with this user name and this password. -/
def Presents (username password : Bytes) (m : Message) : Prop :=
  m.msgType = some MsgType.auth.toByte ∧ ∃ view view',
    (TlvView.ofMessage m).nextTlv = .ok (true, view) ∧
    view.tlvType = .ok TlvType.usrn.toByte ∧ view.value = .ok username ∧
    view.nextIs .pswd = .ok (true, view') ∧ view'.value = .ok password

/-- It is answered OK when its password is accepted. -/
theorem auth_answered_iff {w : World} {u : User} {m : Message} {username password : Bytes}
    (hm : Presents username password m) (hauth : u.isAuth = false) :
    (handleRequest env w u m).Answered .ok .none ↔
      verifyPassword env username password = .ok true := by
  obtain ⟨hmsg, view, view', hfirst, husrn, husername, hnext, hpassword⟩ := hm
  have hroute : route u MsgType.auth.toByte = .auth := by simp [route, hauth]
  rw [handleRequest_eq_perform]
  simp only [taskOf, hmsg, hfirst, check, hroute, authTask, husrn, husername, hnext, hpassword]
  cases verifyPassword env username password with
  | error e => simp [perform, not_answered_halted]
  | ok verified =>
      cases verified with
      | true => simp [perform, answered_answer_iff]
      | false => simp [perform, answered_answer_iff]

/-- The SHA-512 digest of `hunter2`. -/
def hunter2Digest : Bytes :=
  [107, 151, 237, 104, 209, 78, 179, 241, 170, 149, 156, 229, 212, 156, 125, 198, 18, 225, 235,
    29, 175, 215, 59, 30, 112, 88, 71, 72, 63, 214, 166, 200, 9, 242, 206, 180, 232, 223, 111,
    249, 152, 76, 98, 152, 255, 2, 133, 202, 206, 102, 20, 191, 141, 170, 159, 0, 112, 16, 27,
    108, 137, 137, 158, 34]

/-- The SHA-512 digest of `hunter3`. -/
def hunter3Digest : Bytes :=
  [226, 154, 232, 8, 59, 138, 190, 117, 156, 210, 146, 91, 123, 99, 31, 247, 198, 211, 173, 43,
    14, 143, 37, 62, 218, 44, 188, 115, 134, 128, 108, 8, 167, 208, 143, 249, 38, 208, 235, 84,
    33, 94, 53, 38, 8, 4, 104, 238, 165, 216, 134, 57, 124, 77, 184, 134, 72, 149, 3, 130, 21,
    92, 48, 97]

/-- The server of `bobby` and `bob` with the digests of the two passwords. -/
def hunterEnv : Env :=
  { bobbyAndBobEnv [] with
    sha512 := fun bytes =>
      ([(ascii "hunter", hunterDigest), (ascii "hunter2", hunter2Digest),
        (ascii "hunter3", hunter3Digest)].lookup bytes).getD [] }

/-- The four texts that the witness hashes have different digests. -/
theorem injOn_hunter : Set.InjOn hunterEnv.sha512
    {ascii "hunter2", ascii "hunter3", (ascii "hunter2").dropLast, (ascii "hunter3").dropLast} := by
  have hall : ∀ x ∈ [ascii "hunter2", ascii "hunter3", ascii "hunter"],
      ∀ y ∈ [ascii "hunter2", ascii "hunter3", ascii "hunter"],
        hunterEnv.sha512 x = hunterEnv.sha512 y → x = y := by
    decide +kernel
  have hmem : ∀ x ∈ ({ascii "hunter2", ascii "hunter3", (ascii "hunter2").dropLast,
      (ascii "hunter3").dropLast} : Set Bytes),
      x ∈ [ascii "hunter2", ascii "hunter3", ascii "hunter"] := by
    rintro x (rfl | rfl | rfl | rfl) <;> decide
  exact fun x hx y hy => hall x (hmem x hx) y (hmem y hy)

/-- Two passwords that differ in their last character open the same account. -/
theorem one_password_hunter :
    ¬ HashesAll hunterEnv (ascii "hunter2") ∧
      (OpensOne hunterEnv (ascii "bobby") (ascii "hunter2") (ascii "hunter3") ↔
        ToldApart hunterEnv (ascii "bobby") (ascii "hunter2") (ascii "hunter3")) :=
  one_password_iff (ascii "bobby") (ascii "hunter2") (ascii "hunter3") injOn_hunter

/-- An AUTH of `bobby`. -/
def bobbyPresents (password : Bytes) : Message :=
  encode MsgType.auth.toByte [(TlvType.usrn.toByte, ascii "bobby"),
    (TlvType.pswd.toByte, password), (TlvType.end_.toByte, [])]

/-- `bobby` is let in with either password. -/
theorem not_one_password :
    Set.InjOn hunterEnv.sha512 {ascii "hunter2", ascii "hunter3", (ascii "hunter2").dropLast,
        (ascii "hunter3").dropLast} ∧
      ¬ HashesAll hunterEnv (ascii "hunter2") ∧
      ¬ OpensOne hunterEnv (ascii "bobby") (ascii "hunter2") (ascii "hunter3") ∧
      (handleRequest hunterEnv (World.ofDisk Disk.empty) (User.fresh false false [])
        (bobbyPresents (ascii "hunter2"))).Answered .ok .none ∧
      (handleRequest hunterEnv (World.ofDisk Disk.empty) (User.fresh false false [])
        (bobbyPresents (ascii "hunter3"))).Answered .ok .none := by
  have hfirst : verifyPassword hunterEnv (ascii "bobby") (ascii "hunter2") = .ok true := by
    decide +kernel
  have hsecond : verifyPassword hunterEnv (ascii "bobby") (ascii "hunter3") = .ok true := by
    decide +kernel
  have hpart : ¬ HashesAll hunterEnv (ascii "hunter2") := by
    rw [HashesAll]
    decide +kernel
  refine ⟨injOn_hunter, hpart, fun h => h.2.2 ⟨hfirst, hsecond⟩, ?_, ?_⟩
  · exact (auth_answered_iff ⟨rfl, _, _, rfl, rfl, rfl, rfl, rfl⟩ rfl).mpr hfirst
  · exact (auth_answered_iff ⟨rfl, _, _, rfl, rfl, rfl, rfl, rfl⟩ rfl).mpr hsecond

end RemoteBackup.Proofs
