import RemoteBackup.Proofs.StoredUpload

/-!
# `RemoteBackup.Proofs.RejectedRequests`: a rejected request changes nothing

The checks of a request come before its effects, and the two answer with different codes. So a
reply with the code of a check tells that no effect has run.

* `perform_unrefused`: no effect answers with the code of a check.
* `rejected_request`: the session and the world after a rejected request are those before it.
* `run_active_rejected`: a run of the server is the run without its rejected requests.
-/

set_option autoImplicit false

namespace RemoteBackup.Proofs

open Lib

variable {env : Env}

/-! ### What the effects answer -/

/-- The outcome has no reply with the code of a check. -/
def Unrefused (o : Outcome) : Prop := ∀ status err, o.Answered status err → ¬ Refusal err

/-- A process that has stopped does not answer. -/
theorem unrefused_halted (w : World) (u : User) (h : Halt) : Unrefused (halted w u h) :=
  fun _ _ hanswer => absurd hanswer not_answered_halted

/-- An answer with another code is none of a check. -/
theorem unrefused_answer {err : ErrType} (herr : ¬ Refusal err) (w : World) (u : User)
    (replies : MessageQueue) (status : TlvType) : Unrefused (answer w u replies status err) := by
  intro status' err' hanswer
  rw [answered_answer_iff] at hanswer
  rwa [← hanswer.2]

/-- A step that can stop the process adds no code. -/
theorem unrefused_attempt {α : Type} {w : World} {u : User} {x : Except Halt α} {k : α → Outcome}
    (hk : ∀ a, Unrefused (k a)) : Unrefused (attempt w u x k) := by
  cases x with
  | ok a => exact hk a
  | error h => exact unrefused_halted w u h

/-- The digest check answers with codes of its own. -/
theorem CheckEnds.unrefused {w : World} {u : User} {dir : Dir} {replies : MessageQueue}
    {absolutePath path digest : Bytes} {err : ErrType} {o : Outcome} (herr : ¬ Refusal err)
    (h : CheckEnds env w u dir replies absolutePath path digest err o) : Unrefused o := by
  cases h with
  | unreadable => exact unrefused_halted _ _ _
  | matching => exact unrefused_answer (by decide) _ _ _ _
  | stuck => exact unrefused_halted _ _ _
  | mismatch => exact unrefused_answer herr _ _ _ _

/-- So does the last chunk of an UPDATE. -/
theorem ReplaceEnds.unrefused {u : User} {dir : Dir} {replies : MessageQueue}
    {absolutePath path digest : Bytes} {w : World} {o : Outcome}
    (h : ReplaceEnds env u dir replies absolutePath path digest w o) : Unrefused o := by
  cases h with
  | notRemoved => exact unrefused_halted _ _ _
  | notRenamed => exact unrefused_halted _ _ _
  | replaced _ _ _ hcheck => exact hcheck.unrefused (by decide)

/-- So does the common part of the two transfers. -/
theorem WriteEnds.unrefused {w : World} {u : User} {dir : Dir} {view : TlvView}
    {replies : MessageQueue} {path digest early target : Bytes} {flushed : Bool} {failed : ErrType}
    {Last : World → Outcome → Prop} {o : Outcome} (hfailed : ¬ Refusal failed)
    (hlast : ∀ w o, Last w o → Unrefused o)
    (h : WriteEnds env w u dir view replies path digest early target flushed failed Last o) :
    Unrefused o := by
  cases h with
  | noStream => exact unrefused_answer hfailed _ _ _ _
  | badContent => exact unrefused_halted _ _ _
  | badEnd => exact unrefused_halted _ _ _
  | stored => exact unrefused_answer (by decide) _ _ _ _
  | last _ _ _ _ _ hend => exact hlast _ _ hend

/-- So does a CREATE that has passed its checks. -/
theorem createTransfer_unrefused (w : World) (u : User) (dir : Dir) (view : TlvView)
    (replies : MessageQueue) (path digest : Bytes) :
    Unrefused (createTransfer env w u dir view replies path digest) := by
  have hends := createTransfer_ends env w u dir view replies path digest
  generalize createTransfer env w u dir view replies path digest = o at hends
  cases hends with
  | noParent => exact unrefused_answer (by decide) _ _ _ _
  | hasParent _ _ hwrite =>
      exact hwrite.unrefused (by decide) fun w o hcheck => hcheck.unrefused (by decide)

/-- So does an UPDATE that has passed its checks. -/
theorem updateTransfer_unrefused (w : World) (u : User) (dir : Dir) (view : TlvView)
    (replies : MessageQueue) (path digest oldDigest : Bytes) :
    Unrefused (updateTransfer env w u dir view replies path digest oldDigest) :=
  (updateTransfer_ends env w u dir view replies path digest oldDigest).unrefused (by decide)
    fun _ _ hreplace => hreplace.unrefused

/-- So does an ERASE that has passed its checks. -/
theorem eraseEntry_unrefused (w : World) (u : User) (dir : Dir) (replies : MessageQueue)
    (path : Bytes) : Unrefused (eraseEntry env w u dir replies path) := by
  unfold eraseEntry
  dsimp only
  split
  · exact unrefused_answer (by decide) _ _ _ _
  · exact unrefused_answer (by decide) _ _ _ _

/-- So does a SYNC. -/
theorem handleSync_unrefused (w : World) (u : User) (replies : MessageQueue) :
    Unrefused (handleSync env w u replies) := by
  refine unrefused_attempt fun dir => ?_
  dsimp only
  split
  · exact unrefused_answer (by decide) _ _ _ _
  -- The traversal ends in one of four ways.
  · split
    · exact unrefused_answer (by decide) _ _ _ _
    · exact unrefused_answer (by decide) _ _ _ _
    · exact unrefused_answer (by decide) _ _ _ _
    · exact unrefused_halted _ _ _

/-- No effect answers with the code of a check. -/
theorem perform_unrefused (w : World) (u : User) {t : Task}
    (hrefuse : ∀ replies err, t ≠ .refuse replies err) : Unrefused (perform env w u t) := by
  cases t with
  | stop h => exact unrefused_halted w u h
  | refuse replies err => exact absurd rfl (hrefuse replies err)
  | keepAlive replies => exact unrefused_answer (by decide) _ _ _ _
  | authenticate username replies => exact unrefused_answer (by decide) _ _ _ _
  | sync replies => exact handleSync_unrefused w u replies
  | create dir view replies path digest => exact createTransfer_unrefused w u dir view replies _ _
  | update dir view replies path digest oldDigest =>
      exact updateTransfer_unrefused w u dir view replies _ _ _
  | erase dir replies path => exact eraseEntry_unrefused w u dir replies path

/-! ### Rejected requests -/

/-- The codes with which `handle_request` and the handlers reject a request. -/
def validationErrors : List ErrType :=
  [.noContent, .msgTypeRejected, .createNoItem, .createNoContent, .createAlreadyExist,
    .updateNoItem, .updateNoContent, .updateNotExist, .updateAlreadyUpdated, .eraseNoItem,
    .eraseNoMatch, .authNoUsrn, .authNoPswd, .authFailed]

/-- They are the codes of the checks. -/
theorem mem_validationErrors_iff (err : ErrType) : err ∈ validationErrors ↔ Refusal err := by
  cases err <;> decide

/-- The request is answered with one of them. -/
def Rejected (env : Env) (w : World) (u : User) (m : Message) : Prop :=
  ∃ err ∈ validationErrors, (handleRequest env w u m).Answered .error err

/-- Whether a request is rejected is found by serving it. -/
instance (w : World) (u : User) (m : Message) : Decidable (Rejected env w u m) :=
  inferInstanceAs (Decidable (∃ err ∈ validationErrors, _))

/-- A reply with the code of a check is the answer of that check. -/
theorem refused_of_answered {w : World} {u : User} {m : Message} {status : TlvType} {err : ErrType}
    (herr : Refusal err) (h : (handleRequest env w u m).Answered status err) :
    ∃ replies, taskOf env u m = .refuse replies err := by
  rw [handleRequest_eq_perform] at h
  generalize taskOf env u m = t at h ⊢
  by_cases hrefuse : ∃ replies err', t = .refuse replies err'
  · obtain ⟨replies, err', rfl⟩ := hrefuse
    rw [perform, answered_answer_iff] at h
    exact ⟨replies, by rw [h.2]⟩
  · refine absurd herr (perform_unrefused w u ?_ status err h)
    intro replies err' ht
    exact hrefuse ⟨replies, err', ht⟩

/-- Such a request is its reply and nothing else. -/
theorem handleRequest_of_answered {w : World} {u : User} {m : Message} {status : TlvType}
    {err : ErrType} (herr : err ∈ validationErrors)
    (h : (handleRequest env w u m).Answered status err) :
    ∃ replies, handleRequest env w u m = answer w u replies .error err := by
  rw [mem_validationErrors_iff] at herr
  obtain ⟨replies, htask⟩ := refused_of_answered herr h
  exact ⟨replies, by rw [handleRequest_eq_perform, htask, perform]⟩

/-- **A rejected request changes nothing.** For every world, session and request: when the reply
carries the code of a check, the session and the world, with its tree and its stream table, are
those before the request. -/
theorem rejected_request (w : World) (u : User) (m : Message) (status : TlvType) (err : ErrType)
    (herr : err ∈ validationErrors) (h : (handleRequest env w u m).Answered status err) :
    (handleRequest env w u m).user = u ∧ (handleRequest env w u m).world = w := by
  obtain ⟨replies, hanswer⟩ := handleRequest_of_answered herr h
  rw [hanswer]
  exact ⟨rfl, rfl⟩

/-- The UPDATE of a path that is not in `bobby`'s view. -/
def updateB : Message := chunk .update (ascii "/b") (ascii "00") (ascii "new") true

/-- It is rejected between two chunks of `bobby`'s upload of `/a`. -/
theorem rejected_request_bobby :
    bobbyBegun.world.usable (bobby [(ascii "/a", ⟨false, tempDigest⟩)]).id = true ∧
      (handleRequest (bobbyAndBobEnv [ahi]) bobbyBegun.world
          (bobby [(ascii "/a", ⟨false, tempDigest⟩)]) updateB).user =
        bobby [(ascii "/a", ⟨false, tempDigest⟩)] ∧
      (handleRequest (bobbyAndBobEnv [ahi]) bobbyBegun.world
          (bobby [(ascii "/a", ⟨false, tempDigest⟩)]) updateB).world = bobbyBegun.world :=
  ⟨by decide +kernel,
    @rejected_request (bobbyAndBobEnv [ahi]) bobbyBegun.world
      (bobby [(ascii "/a", ⟨false, tempDigest⟩)]) updateB .error .updateNotExist (by decide)
      (by decide +kernel)⟩

/-! ### Rejected requests of a run -/

/-- The event is a request that the server rejects. -/
def rejects (env : Env) (s : Server) : Event → Bool
  | .request c m =>
      match s.sessions c with
      | some u => decide (Rejected env s.world u m)
      | none => false
  | _ => false

/-- The server is the same after a request that it rejects. -/
theorem step_rejected (s : Server) (e : Event) (h : rejects env s e = true) :
    Server.step env s e = s := by
  cases e with
  | accept => cases h
  | shutdown => cases h
  | request c m =>
      cases hc : s.sessions c with
      | none => simp [rejects, hc] at h
      | some u =>
          simp only [rejects, hc, decide_eq_true_eq] at h
          obtain ⟨err, herr, hanswered⟩ := h
          obtain ⟨replies, hanswer⟩ := handleRequest_of_answered herr hanswered
          cases hhalt : s.halt with
          | some h => simp [Server.step, hhalt]
          | none =>
              rw [step_request m hhalt hc, Server.serve, hanswer]
              show Server.mk s.world (Function.update s.sessions c (some u)) none = s
              rw [← hc, Function.update_eq_self, ← hhalt]

/-- For every server and every interleaving, leaving out the requests that are rejected leads to
the same sessions, the same streams and the same tree. -/
theorem run_active_rejected (s : Server) (es : List Event) :
    run (Server.step env) s (active (Server.step env) (rejects env) s es) =
      run (Server.step env) s es :=
  run_active step_rejected s es

end RemoteBackup.Proofs
