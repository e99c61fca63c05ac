import RemoteBackup.Utilities.Tools

/-!
# `RemoteBackup.Proofs.Credentials`: what a credentials file decides

The scan of `verify_password` stops at the first line that contains the user name anywhere,
in another name or in a digest.

* `scanCredentials_map`: the scan answers with the digest of that first line.
* `verifyPassword_exact_iff`: the answer is the exact one, whether the file has the user's
  name with the password's digest, when that first line decides it: the line is the user's
  own, or it and the user's own line agree on the password.
-/

set_option autoImplicit false

namespace RemoteBackup.Proofs

open Lib

/-- A line `name TAB digest`. -/
def credentialLine (e : Bytes × Bytes) : Bytes := e.1 ++ tab :: e.2

/-- The lines of the file are the entries, whose names are distinct and hold no tab. -/
structure CredentialsFile (file : Bytes) (entries : List (Bytes × Bytes)) : Prop where
  lines : getlines file = entries.map credentialLine
  names_nodup : (entries.map Prod.fst).Nodup
  names_noTab : ∀ e ∈ entries, tab ∉ e.1

/-- `verify_password` returns, and it returns true when the file has a line with exactly this
name and the digest of this password, and false otherwise. -/
def VerifiesExactly (env : Env) (entries : List (Bytes × Bytes)) (username password : Bytes) :
    Prop :=
  ∃ digest, sha512Hash env password = .ok digest ∧
    verifyPassword env username password = .ok (decide ((username, digest) ∈ entries))

/-- The first entry whose line contains the user name. -/
def firstContaining (entries : List (Bytes × Bytes)) (username : Bytes) :
    Option (Bytes × Bytes) :=
  entries.find? fun e => username <:+: credentialLine e

/-- The first line that contains the user name is the user's own, or its digest and the
user's own line are both right for the password's digest, or both wrong. -/
def FirstLineDecides (entries : List (Bytes × Bytes)) (username digest : Bytes) : Prop :=
  ∀ e, firstContaining entries username = some e →
    e.1 = username ∨ (e.2 = digest ∧ (username, digest) ∈ entries) ∨
      (e.2 ≠ digest ∧ (username, digest) ∉ entries)

/-! ### Lines -/

/-- Lines without a newline come back from a file that ends each of them with one. -/
theorem getlines_flatMap {lines : List Bytes} (h : ∀ l ∈ lines, newline ∉ l) :
    getlines (lines.flatMap fun l => l ++ [newline]) = lines := by
  have hsplit : (lines.flatMap fun l => l ++ [newline]).splitOn newline = lines ++ [[]] := by
    induction lines with
    | nil => rfl
    | cons l lines ih =>
        have hl : newline ∉ l := h l (by simp)
        rw [List.flatMap_cons, List.append_assoc, List.singleton_append, List.splitOn,
          List.splitOnP_append_cons _ _ (by simp)]
        have hhead : l.splitOnP (fun b => b == newline) = [l] := by
          rw [List.splitOnP_eq_singleton]
          intro b hb
          simpa using fun hbn : b = newline => hl (hbn ▸ hb)
        rw [hhead, ← List.splitOn, ih fun l' hl' => h l' (List.mem_cons_of_mem _ hl')]
        rfl
  unfold getlines
  simp [hsplit]

/-- What follows the first tab of a line is its digest. -/
theorem digest_of_credentialLine {e : Bytes × Bytes} (h : tab ∉ e.1) :
    ((credentialLine e).dropWhile (fun b => b ≠ tab)).drop 1 = e.2 := by
  have hall : ∀ b ∈ e.1, decide (b ≠ tab) = true := by
    intro b hb
    simpa using fun hbt : b = tab => h (hbt ▸ hb)
  rw [credentialLine, List.dropWhile_append_of_pos hall]
  simp

/-- A user's own line contains the user's name. -/
theorem name_infix_credentialLine (e : Bytes × Bytes) : e.1 <:+: credentialLine e :=
  (List.prefix_append e.1 (tab :: e.2)).isInfix

/-! ### The scan -/

/-- The scan compares the digest of the first line that contains the name. -/
theorem scanCredentials_map {entries : List (Bytes × Bytes)} (h : ∀ e ∈ entries, tab ∉ e.1)
    (username digest : Bytes) :
    scanCredentials username digest (entries.map credentialLine) =
      match firstContaining entries username with
      | some e => decide (e.2 = digest)
      | none => false := by
  unfold firstContaining
  induction entries with
  | nil => rfl
  | cons e entries ih =>
      have htab : tab ∈ credentialLine e := by simp [credentialLine]
      have hdigest := digest_of_credentialLine (h e (by simp))
      by_cases hin : username <:+: credentialLine e
      · rw [List.map_cons, scanCredentials, if_pos hin, if_pos htab, hdigest]
        simp [hin]
      · simp only [List.map_cons, scanCredentials, if_neg hin]
        rw [ih fun e' he' => h e' (List.mem_cons_of_mem _ he'),
          List.find?_cons_of_neg (by simpa using hin)]

/-- Under distinct names an entry is determined by its name. -/
theorem digest_unique {entries : List (Bytes × Bytes)} (h : (entries.map Prod.fst).Nodup)
    {name d d' : Bytes} (hd : (name, d) ∈ entries) (hd' : (name, d') ∈ entries) : d = d' := by
  have heq := List.inj_on_of_nodup_map h hd hd' rfl
  exact (Prod.mk.inj heq).2

/-- The scan is exact when the first line that contains the name decides. -/
theorem scan_exact_iff {entries : List (Bytes × Bytes)} (hnodup : (entries.map Prod.fst).Nodup)
    (htab : ∀ e ∈ entries, tab ∉ e.1) (username digest : Bytes) :
    scanCredentials username digest (entries.map credentialLine) =
        decide ((username, digest) ∈ entries) ↔ FirstLineDecides entries username digest := by
  rw [scanCredentials_map htab]
  unfold FirstLineDecides
  cases hfirst : firstContaining entries username with
  | none =>
      -- Nobody's line contains the name, so nobody has it.
      have hnot : (username, digest) ∉ entries := by
        intro hmem
        have hnone := List.find?_eq_none.mp hfirst _ hmem
        exact hnone (by simpa using name_infix_credentialLine (username, digest))
      simp [hnot]
  | some e =>
      have hmem : e ∈ entries := List.mem_of_find?_eq_some hfirst
      simp only [decide_eq_decide, Option.some.injEq, forall_eq']
      constructor
      · intro h
        by_cases hd : e.2 = digest
        · exact Or.inr (Or.inl ⟨hd, h.mp hd⟩)
        · exact Or.inr (Or.inr ⟨hd, fun hin => hd (h.mpr hin)⟩)
      · rintro (hname | ⟨hd, hin⟩ | ⟨hd, hin⟩)
        · have hown : (username, e.2) ∈ entries := by
            rw [← hname]
            exact hmem
          constructor
          · rintro rfl
            exact hown
          · exact fun hin => digest_unique hnodup hown hin
        · exact ⟨fun _ => hin, fun _ => hd⟩
        · exact ⟨fun h => absurd h hd, fun h => absurd h hin⟩

/-- `verify_password` decides exactly for the passwords that are not empty and on whose
digest the first line that contains the user name decides rightly. -/
theorem verifyPassword_exact_iff {env : Env} {file : Bytes} {entries : List (Bytes × Bytes)}
    (hfile : env.credentials = some file) (hentries : CredentialsFile file entries)
    (username password : Bytes) :
    VerifiesExactly env entries username password ↔
      password ≠ [] ∧ ∀ digest, sha512Hash env password = .ok digest →
        FirstLineDecides entries username digest := by
  unfold VerifiesExactly verifyPassword
  cases hhash : sha512Hash env password with
  | error e =>
      have hempty : password = [] := by
        by_contra hne
        simp [sha512Hash, hne] at hhash
      simp [hempty]
  | ok digest =>
      have hne : password ≠ [] := by
        rintro rfl
        simp [sha512Hash] at hhash
      have hscan := scan_exact_iff hentries.names_nodup hentries.names_noTab username digest
      simp only [hfile, hentries.lines, bind, Except.bind, pure, Except.pure, Except.ok.injEq,
        exists_eq_left', forall_eq', hne, ne_eq, not_false_eq_true, true_and]
      exact hscan

/-- The SHA-512 digest of `secre`, which is what the code hashes for `secret`. -/
def secretDigest : Bytes :=
  [135, 121, 8, 96, 85, 117, 96, 191, 1, 202, 194, 254, 42, 169, 150, 138, 201, 27, 3, 7, 66,
    219, 94, 109, 102, 247, 50, 74, 66, 56, 114, 224, 12, 75, 76, 147, 15, 210, 193, 207, 228,
    195, 12, 42, 2, 20, 209, 125, 193, 157, 150, 60, 123, 146, 43, 12, 44, 50, 61, 68, 12, 235,
    242, 126]

/-- The SHA-512 digest of `hunter`, which is what the code hashes for `hunter2`. -/
def hunterDigest : Bytes :=
  [10, 47, 219, 73, 208, 190, 101, 172, 22, 189, 32, 252, 139, 97, 250, 245, 185, 206, 189,
    179, 208, 214, 6, 43, 230, 128, 10, 76, 193, 104, 40, 150, 53, 246, 125, 176, 235, 201,
    167, 41, 221, 206, 17, 153, 38, 225, 222, 28, 37, 7, 248, 243, 135, 246, 87, 159, 42, 67, 5,
    197, 210, 2, 186, 104]

/-- `bobby` with the password `hunter2`, then `bob` with the password `secret`. -/
def bobbyAndBob : List (Bytes × Bytes) :=
  [(ascii "bobby", hunterDigest.flatMap fun b => hexDigits 2 b.toNat),
    (ascii "bob", secretDigest.flatMap fun b => hexDigits 2 b.toNat)]

/-- The credentials file of `bobbyAndBob`. -/
def bobbyAndBobFile : Bytes := (bobbyAndBob.map credentialLine).flatMap fun l => l ++ [newline]

/-- A server below `/backup` with this credentials file. `digests` are the MD5 digests of what
its users store. -/
def bobbyAndBobEnv (digests : List (Bytes × List UInt32)) : Env :=
  Env.ofTables [⟨ascii "backup", by decide⟩] (some bobbyAndBobFile)
    ((ascii "bobby", [0xF5CEC4A9, 0xE6705773, 0x5BC2B757, 0x7B80CB9D]) ::
      (ascii "bob", [0xBC519D9F, 0xCA21EF70, 0x07F3145C, 0xD8290A98]) :: digests)
    [(ascii "hunter", hunterDigest), (ascii "secre", secretDigest)]

/-- The example's file holds the two users. -/
theorem credentialsFile_bobbyAndBob : CredentialsFile bobbyAndBobFile bobbyAndBob where
  lines := getlines_flatMap (by decide +kernel)
  names_nodup := by decide
  names_noTab := by decide

/-- The answer on `bobby` and his password is exact: the first line that contains `bobby` is
his own. -/
theorem verifyPassword_exact_bobby :
    VerifiesExactly (bobbyAndBobEnv []) bobbyAndBob (ascii "bobby") (ascii "hunter2") := by
  refine (verifyPassword_exact_iff rfl credentialsFile_bobbyAndBob _ _).mpr
    ⟨by decide, fun digest _ e he => Or.inl ?_⟩
  have hfirst : firstContaining bobbyAndBob (ascii "bobby") =
      some (ascii "bobby", hunterDigest.flatMap fun b => hexDigits 2 b.toNat) := by
    decide +kernel
  rw [hfirst] at he
  rw [← Option.some.inj he]

/-- `bob` is refused with the right password, because the line of `bobby` comes first. -/
theorem not_verifiesExactly_bob :
    CredentialsFile bobbyAndBobFile bobbyAndBob ∧
      verifyPassword (bobbyAndBobEnv []) (ascii "bob") (ascii "secret") = .ok false ∧
      ¬ VerifiesExactly (bobbyAndBobEnv []) bobbyAndBob (ascii "bob") (ascii "secret") := by
  have hrefused :
      verifyPassword (bobbyAndBobEnv []) (ascii "bob") (ascii "secret") = .ok false := by
    decide +kernel
  have hdigest : sha512Hash (bobbyAndBobEnv []) (ascii "secret") =
      .ok (secretDigest.flatMap fun b => hexDigits 2 b.toNat) := by
    decide +kernel
  refine ⟨credentialsFile_bobbyAndBob, hrefused, ?_⟩
  rintro ⟨digest, hd, hverify⟩
  rw [hdigest] at hd
  rw [hrefused] at hverify
  have hmem : decide ((ascii "bob", digest) ∈ bobbyAndBob) = true := by
    rw [← Except.ok.inj hd]
    decide +kernel
  rw [hmem] at hverify
  exact absurd hverify (by simp)

end RemoteBackup.Proofs
