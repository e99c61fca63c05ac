import RemoteBackup.Proofs.NonInterference
import RemoteBackup.Proofs.Stepwise

/-!
# `RemoteBackup.Proofs.CallsWithin`: where the calls of a handler go

Whatever the calls of a handler answer, the next ones stay in the directory of the session's user
and on the user's own stream. This is said of the program, before any run: another thread may have
changed the world between two calls.

`T` are the places that the calls may open, remove or rename to, and `S` those that they may
rename. `Aims` is what this asks of a message.

* `Within`: one call.
* `Answers`: what is known of the answers.
* `handleRequest_within`: a request, with one lemma before it for each part of a handler.
* `serveVisits_within`: the connections of a user, one after another.
-/

set_option autoImplicit false

namespace RemoteBackup.Proofs

open Lib Stepwise

/-- The path of a place with a property. -/
def PathOf (P : Loc → Prop) (p : Path) : Prop := ∃ l, P l ∧ p = toPath l

/-- A call of a session of this user. A session that nobody has authenticated has no id, and it
only ever ends. -/
def Within (env : Env) (username : Bytes) (T S : Loc → Prop) : Call → Prop
  | .createDirectories p => PathOf (homeOf env username <+: ·) p
  | .getStream id p =>
      id = md5HashString env username ∧ PathOf (fun l => Disk.Under (homeOf env username) l ∧ T l) p
  | .usable id => id = md5HashString env username
  | .write id _ => id = md5HashString env username
  | .flush id => id = md5HashString env username
  | .close id => id = md5HashString env username
  | .eraseStream id => id = md5HashString env username ∨ id = []
  | .md5Hash p _ => PathOf (homeOf env username <+: ·) p
  | .remove p => PathOf (fun l => Disk.Under (homeOf env username) l ∧ T l) p
  | .rename p q =>
      PathOf (fun l => Disk.Under (homeOf env username) l ∧ S l) p ∧
        PathOf (fun l => Disk.Under (homeOf env username) l ∧ T l) q
  | .isEmpty p => PathOf (Disk.Under (homeOf env username)) p
  | .iterate p => p = toPath (homeOf env username)
  | .isRegularFile p => PathOf (homeOf env username <+: ·) p
  | .advance p => PathOf (homeOf env username <+: ·) p

/-- An iterator meets only what is below its directory. -/
def Answers : (c : Call) → c.Answer → Prop
  | .iterate p, some entries => ∀ q ∈ entries, PathOf (denote p <+: ·) q
  | _, _ => True

/-- The request names only places of `T`, and an UPDATE renames only one of `S`. -/
structure Aims (env : Env) (username : Bytes) (T S : Loc → Prop) (m : Message) : Prop where
  plain : PlainItems m
  create : ∀ path digest, m.msgType = some MsgType.create.toByte → Signed m path digest →
    T (place (homeOf env username) path)
  update : ∀ path digest, m.msgType = some MsgType.update.toByte → Signed m path digest →
    T (place (homeOf env username) path) ∧ T (draft (place (homeOf env username) path)) ∧
      S (draft (place (homeOf env username) path))
  erase : ∀ path digest, m.msgType = some MsgType.erase.toByte → Signed m path digest →
    ∀ l, Disk.Under (homeOf env username) l → l <+: place (homeOf env username) path → T l

/-- Whom an AUTH authenticates that passes the checks. -/
def AuthOnlyAs (env : Env) (username : Bytes) (m : Message) : Prop :=
  ∀ u x replies, taskOf env u m = .authenticate x replies → x = username

variable {env : Env} {username : Bytes} {T S : Loc → Prop} {u : User} {dir : Dir}

/-- The calls of a handler stay with the user, and so does the session. -/
def StaysWithin (env : Env) (username : Bytes) (T S : Loc → Prop) : Handler → Prop :=
  Prog.Behaves (Within env username T S) Answers fun r => InPlace env username r.1

/-- A message with plain paths stays within its user's directory. -/
theorem aims_anywhere {m : Message} (hm : PlainItems m) :
    Aims env username (fun _ => True) (fun _ => True) m :=
  ⟨hm, fun _ _ _ _ => trivial, fun _ _ _ _ => ⟨trivial, trivial, trivial⟩,
    fun _ _ _ _ _ _ _ => trivial⟩

/-- The session after a handler, with another view of the same directory. -/
theorem SessionOf.stays {u' : User} {dir' : Dir}
    (h : SessionOf (homeOf env username) (md5HashString env username) u dir)
    (hid : u'.id = u.id) (hdir : u'.dir = some dir') (hpath : dir'.path = dir.path) :
    InPlace env username u' :=
  Or.inr ⟨dir', hid.trans h.id, hdir, hpath.trans h.path⟩

/-- A session with a directory is one of the user. -/
theorem InPlace.sessionOf (h : InPlace env username u) (hdir : u.dir = some dir) :
    SessionOf (homeOf env username) (md5HashString env username) u dir := by
  rcases h with ⟨hnone, -⟩ | ⟨dir', hu⟩
  · rw [hnone] at hdir
    cases hdir
  · obtain rfl := Option.some.inj (hu.holds.symm.trans hdir)
    exact hu

/-- A step that can stop the process makes no call. -/
theorem attempt_within {α : Type} {x : Except Halt α} {k : α → Handler}
    (hu : InPlace env username u) (hk : ∀ a, x = .ok a → StaysWithin env username T S (k a)) :
    StaysWithin env username T S (Stepwise.attempt u x k) := by
  cases x with
  | ok a => exact hk a rfl
  | error e => exact hu

/-- The place that a plain path names for a session. -/
theorem SessionOf.place (h : SessionOf (homeOf env username) (md5HashString env username) u dir)
    {path : Path} (hp : PlainPath path) :
    ∃ l k, append dir.path path = toPath (l ++ [k]) ∧ homeOf env username <+: l ∧
      place (homeOf env username) path = l ++ [k] := by
  obtain ⟨l, k, hpath, hl⟩ := h.plain (by simp [homeOf]) hp
  refine ⟨l, k, hpath, hl, ?_⟩
  rw [Proofs.place, ← h.path, hpath, denote_toPath]

/-! ### SYNC -/

/-- The calls on an entry of the traversal stay with the user. -/
theorem syncEntry_within (hdir : dir.path = toPath (homeOf env username)) (replies : MessageQueue)
    {p : Path} (hp : PathOf (homeOf env username <+: ·) p) :
    (Stepwise.syncEntry env dir replies p).Behaves (Within env username T S) Answers
      fun r => r.1.path = toPath (homeOf env username) := by
  refine ⟨hp, fun isFile _ => ?_⟩
  rcases isFile with _ | _ | _
  · exact hdir
  · exact hdir
  refine ⟨hp, fun read _ => ?_⟩
  rcases read with t | digest
  · exact hdir
  have hinsert : (dir.insertOrAssign env.hash (p.drop dir.path.length) ⟨true, digest⟩).1.path =
      dir.path := dir.insertOrAssign_path _ _
  dsimp only
  generalize dir.insertOrAssign env.hash (p.drop dir.path.length) ⟨true, digest⟩ = inserted
    at hinsert ⊢
  obtain ⟨dir', _ | _⟩ := inserted
  · exact hinsert.trans hdir
  · exact hinsert.trans hdir

/-- Induction on the entries still to come. -/
theorem syncLoop_within (ps : List Path) (hps : ∀ p ∈ ps, PathOf (homeOf env username <+: ·) p)
    (hdir : dir.path = toPath (homeOf env username)) (replies : MessageQueue) :
    (Stepwise.syncLoop env ps dir replies).Behaves (Within env username T S) Answers
      fun r => r.1.path = toPath (homeOf env username) := by
  induction ps generalizing dir replies with
  | nil => exact hdir
  | cons p ps ih =>
      have hp := hps p List.mem_cons_self
      refine (syncEntry_within hdir replies hp).bind fun r hr => ?_
      obtain ⟨dir', replies', _ | _ | t⟩ := r
      · refine ⟨hp, fun advanced _ => ?_⟩
        cases advanced with
        | false => exact hr
        | true => exact ih (fun q hq => hps q (List.mem_cons_of_mem _ hq)) hr replies'
      · exact hr
      · exact hr

/-- Those of a SYNC do. -/
theorem handleSync_within (hu : InPlace env username u) (replies : MessageQueue) :
    StaysWithin env username T S (Stepwise.handleSync env u replies) := by
  refine attempt_within hu fun dir hdir => ?_
  have hsession := hu.sessionOf (dirPtr_eq_ok hdir)
  refine ⟨hsession.path, fun entries hentries => ?_⟩
  cases entries with
  | none => exact hsession.stays rfl rfl rfl
  | some entries =>
      rw [hsession.path, Answers, denote_toPath] at hentries
      refine (syncLoop_within entries hentries hsession.path replies).bind fun r hr => ?_
      have hpath := hr.trans hsession.path.symm
      obtain ⟨dir', replies', _ | _ | _ | _⟩ := r
      · exact hsession.stays rfl rfl hpath
      · exact hsession.stays rfl rfl hpath
      · exact hsession.stays rfl rfl hpath
      · exact hsession.stays rfl rfl hpath

/-! ### CREATE and UPDATE -/

variable (hu : SessionOf (homeOf env username) (md5HashString env username) u dir)
include hu

/-- Those of the digest check do. -/
theorem checkDigest_within {dir' : Dir} (hdir : dir'.path = dir.path) (replies : MessageQueue)
    {l : Loc} (hl : Disk.Under (homeOf env username) l) (hT : T l) (path : Path) (digest : Bytes)
    (noMatch failed : ErrType) :
    StaysWithin env username T S
      (Stepwise.checkDigest env u dir' replies (toPath l) path digest noMatch failed) := by
  have hremove : Within env username T S (.remove (toPath l)) := ⟨l, ⟨hl, hT⟩, rfl⟩
  refine ⟨⟨l, hl.below, rfl⟩, fun found _ => ?_⟩
  rcases found with (_ | _) | found
  · refine ⟨hremove, fun gone _ => ?_⟩
    cases gone with
    | false => exact hu.stays rfl rfl hdir
    | true => exact hu.stays rfl rfl hdir
  · exact hu.stays rfl rfl hdir
  · dsimp only
    split
    · refine ⟨hremove, fun gone _ => ?_⟩
      cases gone with
      | false => exact hu.stays rfl rfl hdir
      | true => exact hu.stays rfl rfl hdir
    · exact hu.stays rfl rfl hdir

/-- Those of a CREATE do. -/
theorem createTransfer_within (view : TlvView) (replies : MessageQueue) {path : Path}
    (hp : PlainPath path) (hT : T (place (homeOf env username) path)) (digest : Bytes) :
    StaysWithin env username T S
      (Stepwise.createTransfer env u dir view replies path digest) := by
  obtain ⟨l, k, hpath, hl, hplace⟩ := hu.place hp
  rw [hplace] at hT
  have hunder := under_concat hl k
  have hin := hu.stays rfl hu.holds rfl
  unfold Stepwise.createTransfer
  dsimp only
  rw [hpath, parentPath_toPath]
  refine ⟨⟨l, hl, rfl⟩, fun made _ => ?_⟩
  cases made with
  | false => exact hin
  | true =>
      refine ⟨⟨hu.id, l ++ [k], ⟨hunder, hT⟩, rfl⟩, fun isFirst _ => ⟨hu.id, fun usable _ => ?_⟩⟩
      cases usable with
      | false => exact hin
      | true =>
          refine attempt_within hin fun content _ => ⟨hu.id, fun _ _ => ⟨hu.id, fun _ _ => ?_⟩⟩
          refine attempt_within hin fun isLast _ => ?_
          cases isLast with
          | false => exact hu.stays rfl rfl (noteChunk_path env dir path _)
          | true =>
              refine ⟨hu.id, fun _ _ => ⟨Or.inl hu.id, fun _ _ => ?_⟩⟩
              exact checkDigest_within hu (noteChunk_path env dir path _) replies hunder hT path
                digest _ _

/-- Those of an UPDATE do. -/
theorem updateTransfer_within (view : TlvView) (replies : MessageQueue) {path : Path}
    (hp : PlainPath path) (hT : T (place (homeOf env username) path))
    (hdraft : T (draft (place (homeOf env username) path)))
    (hS : S (draft (place (homeOf env username) path))) (digest oldDigest : Bytes) :
    StaysWithin env username T S
      (Stepwise.updateTransfer env u dir view replies path digest oldDigest) := by
  obtain ⟨l, k, hpath, hl, hplace⟩ := hu.place hp
  obtain ⟨k', -, hdraftEq, htemp⟩ := draft_concat l k
  rw [hplace] at hT hdraft hS
  have hunder := under_concat hl k
  have hunder' : Disk.Under (homeOf env username) (draft (l ++ [k])) := by
    rw [hdraftEq]
    exact under_concat hl k'
  have hin := hu.stays rfl hu.holds rfl
  unfold Stepwise.updateTransfer
  dsimp only
  rw [hpath, htemp]
  refine ⟨⟨hu.id, _, ⟨hunder', hdraft⟩, rfl⟩, fun isFirst _ => ⟨hu.id, fun usable _ => ?_⟩⟩
  cases usable with
  | false => exact hin
  | true =>
      refine attempt_within hin fun content _ => ⟨hu.id, fun _ _ => ?_⟩
      refine attempt_within hin fun isLast _ => ?_
      have hdir := noteChunk_path env dir path (chunkResource isFirst isLast digest oldDigest)
      cases isLast with
      | false => exact hu.stays rfl rfl hdir
      | true =>
          refine ⟨hu.id, fun _ _ => ⟨Or.inl hu.id, fun _ _ => ?_⟩⟩
          refine ⟨⟨_, ⟨hunder, hT⟩, rfl⟩, fun gone _ => ?_⟩
          cases gone with
          | false => exact hu.stays rfl rfl hdir
          | true =>
              refine ⟨⟨⟨_, ⟨hunder', hS⟩, rfl⟩, _, ⟨hunder, hT⟩, rfl⟩, fun there _ => ?_⟩
              cases there with
              | false => exact hu.stays rfl rfl hdir
              | true => exact checkDigest_within hu hdir replies hunder hT path digest _ _

/-! ### ERASE -/

omit hu in
/-- The loop climbs from a place below the user's directory, and stops at the directory. Induction
on the rounds. -/
theorem cleanup_within (fuel : Nat) (ms : Loc)
    (hT : ∀ l, Disk.Under (homeOf env username) l → l <+: homeOf env username ++ ms → T l) :
    (Stepwise.cleanup (toPath (homeOf env username)) fuel
      (toPath (homeOf env username ++ ms))).Behaves (Within env username T S) Answers
      fun _ => True := by
  induction fuel generalizing ms with
  | zero => trivial
  | succ fuel ih =>
      unfold Stepwise.cleanup
      split
      · trivial
      rename_i hat
      have hms : ms ≠ [] := by
        rintro rfl
        exact hat (by rw [List.append_nil])
      have hunder := Disk.under_append (homeOf env username) hms
      refine ⟨⟨_, hunder, rfl⟩, fun empty _ => ?_⟩
      rcases empty with _ | _ | _
      · trivial
      · trivial
      refine ⟨⟨_, ⟨hunder, hT _ hunder (List.prefix_refl _)⟩, rfl⟩, fun gone _ => ?_⟩
      cases gone with
      | false => trivial
      | true =>
          obtain ⟨ms, k, rfl⟩ := ms.eq_nil_or_concat'.resolve_left hms
          dsimp only
          rw [← List.append_assoc, parentPath_toPath]
          refine ih ms fun l hl habove => hT l hl (habove.trans ?_)
          rw [← List.append_assoc]
          exact List.prefix_append _ _

/-- Those of an ERASE do. -/
theorem eraseEntry_within (replies : MessageQueue) {path : Path} (hp : PlainPath path)
    (hT : ∀ l, Disk.Under (homeOf env username) l → l <+: place (homeOf env username) path → T l) :
    StaysWithin env username T S (Stepwise.eraseEntry env u dir replies path) := by
  obtain ⟨l, k, hpath, hl, hplace⟩ := hu.place hp
  rw [hplace] at hT
  have hunder := under_concat hl k
  obtain ⟨ms, rfl⟩ := hl
  unfold Stepwise.eraseEntry
  dsimp only
  rw [hpath, parentPath_toPath, hu.path]
  refine ⟨⟨_, ⟨hunder, hT _ hunder (List.prefix_refl _)⟩, rfl⟩, fun gone _ => ?_⟩
  cases gone with
  | false => exact hu.stays rfl hu.holds rfl
  | true =>
      have hclimb : ∀ l, Disk.Under (homeOf env username) l → l <+: homeOf env username ++ ms →
          T l := fun l hl habove => hT l hl (habove.trans (List.prefix_append _ _))
      exact (cleanup_within _ ms hclimb).bind fun _ _ => hu.stays rfl rfl rfl

omit hu

/-! ### Requests and connections -/

/-- Those of any request do: one case for each task. -/
theorem handleRequest_within (hu : InPlace env username u) {m : Message}
    (hm : Aims env username T S m) (hauth : AuthOnlyAs env username m) :
    StaysWithin env username T S (Stepwise.handleRequest env u m) := by
  unfold Stepwise.handleRequest
  cases htask : taskOf env u m with
  | stop => exact hu
  | refuse => exact hu
  | keepAlive => exact hu
  | authenticate x replies =>
      obtain rfl := hauth u x replies htask
      exact Or.inr ⟨_, rfl, rfl, append_toPath_name env.backupRoot (nameOf env x)⟩
  | sync replies => exact handleSync_within hu replies
  | create dir view replies path digest =>
      obtain ⟨-, -, htype, hsigned, -, hdir, -⟩ := passed_taskOf htask (by simp) (by simp)
      exact createTransfer_within (hu.sessionOf hdir) view replies
        (hm.plain _ (Or.inl rfl) htype path digest hsigned) (hm.create path digest htype hsigned)
        digest
  | update dir view replies path digest oldDigest =>
      obtain ⟨-, -, htype, hsigned, -, hdir, -⟩ := passed_taskOf htask (by simp) (by simp)
      obtain ⟨hT, hdraft, hS⟩ := hm.update path digest htype hsigned
      exact updateTransfer_within (hu.sessionOf hdir) view replies
        (hm.plain _ (Or.inr (Or.inl rfl)) htype path digest hsigned) hT hdraft hS digest oldDigest
  | erase dir replies path =>
      obtain ⟨-, -, htype, hdir, rsrc, -, hsigned⟩ := passed_taskOf htask (by simp) (by simp)
      exact eraseEntry_within (hu.sessionOf hdir) replies
        (hm.plain _ (Or.inr (Or.inr rfl)) htype path _ hsigned)
        (hm.erase path _ htype hsigned)

/-- Induction on the requests. -/
theorem serveRequests_within (hu : InPlace env username u) (ms : List Message)
    (hms : ∀ m ∈ ms, Aims env username T S m ∧ AuthOnlyAs env username m) :
    (serveRequests env u ms).Behaves (Within env username T S) Answers
      fun served => InPlace env username served.user := by
  induction ms generalizing u with
  | nil => exact hu
  | cons m ms ih =>
      obtain ⟨hm, hauth⟩ := hms m List.mem_cons_self
      refine (handleRequest_within hu hm hauth).bind fun r hr => ?_
      obtain ⟨u', e | r⟩ := r
      · exact hr
      · exact (ih hr fun m hm => hms m (List.mem_cons_of_mem _ hm)).bind fun served h => h

/-- Induction on the connections. -/
theorem serveVisits_within (vs : List Visit)
    (hvs : ∀ v ∈ vs, ∀ m ∈ v.requests, Aims env username T S m ∧ AuthOnlyAs env username m) :
    (serveVisits env vs).Behaves (Within env username T S) Answers fun _ => True := by
  induction vs with
  | nil => trivial
  | cons v vs ih =>
      have hv := hvs v List.mem_cons_self
      have hserve := serveRequests_within (inPlace_fresh v.isAuth v.isSynced v.ip) v.requests hv
      refine hserve.bind fun served hserved => ?_
      split
      · refine ⟨?_, fun _ _ => ?_⟩
        · rcases hserved with ⟨-, hnil⟩ | ⟨dir, hu⟩
          · exact Or.inr hnil
          · exact Or.inl hu.id
        · exact (ih fun v hv => hvs v (List.mem_cons_of_mem _ hv)).bind fun _ _ => trivial
      · trivial

end RemoteBackup.Proofs
