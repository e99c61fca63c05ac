import RemoteBackup.Core.Console
import RemoteBackup.Proofs.Printing

/-!
# `RemoteBackup.Proofs.ConsoleRuns`: runs of the server that prints

Every event of the printing server is the same event of the plain one, or one that does not show:
its connection is blocked, the print stops the process or it takes a thread (`console_ends`).

* `Prints`: a state of the printing server beside the events that the plain one has seen.
  `prints_step` extends it by one event.
* `Prints.of_small`: no thread is lost where no request declares a negative length.
* `printing_refines_server`: every run.
-/

set_option autoImplicit false

namespace RemoteBackup.Proofs

open Lib

/-- The print of the message ends. -/
def Printable (m : Message) : Prop := ∃ text, m.printed = .ok (some text)

/-- The print of a request of the run stops the process. -/
def PrintStops (es : List Event) : Prop :=
  ∃ c m, Event.request c m ∈ es ∧ m.printed = .error .undefinedBehavior

/-- The server `t`, after a print has stopped the process. -/
def stoppedAt (t : Server) : Server := { t with halt := some .undefinedBehavior }

/-- What one event does: nothing, what it does to the plain server, or what the print does instead:
it stops the process or takes a thread. -/
inductive ConsoleEnds (env : Env) (t : Console) : Event → Console → Prop
  | dropped (e : Event)
      (hwhy : t.server.halt = none → t.threads ≠ 0 → e.strand ∈ t.blocked) :
      ConsoleEnds env t e t
  | seen (e : Event) (hhalt : t.server.halt = none)
      (hprinted : OnRequest (fun _ _ m => Printable m) t.server e) :
      ConsoleEnds env t e { t with server := t.server.step env e }
  | stopped (c : Nat) (m : Message) (hhalt : t.server.halt = none)
      (hprinted : m.printed = .error .undefinedBehavior) :
      ConsoleEnds env t (.request c m) { t with server := stoppedAt t.server }
  | taken (c : Nat) (m : Message) (hthreads : t.threads ≠ 0) (hfree : c ∉ t.blocked)
      (hendless : Endless m) :
      ConsoleEnds env t (.request c m)
        { t with
          threads := t.threads - 1
          blocked := c :: t.blocked }

/-- A step of the console ends in one of the listed ways. -/
theorem console_ends (env : Env) (t : Console) (e : Event) :
    ConsoleEnds env t e (t.step env e) := by
  unfold Console.step
  split
  · rename_i hstays
    refine .dropped e fun hhalt hthreads => ?_
    simpa [hhalt, hthreads] using hstays
  rename_i hgoes
  simp only [Bool.or_eq_true, not_or, Bool.not_eq_true, Option.isSome_eq_false_iff,
    Option.isNone_iff_eq_none, beq_eq_false_iff_ne, List.contains_eq_mem,
    decide_eq_false_iff_not] at hgoes
  obtain ⟨⟨hhalt, hthreads⟩, hfree⟩ := hgoes
  cases e with
  | accept => exact .seen _ hhalt trivial
  | shutdown => exact .seen _ hhalt trivial
  | request c m =>
      dsimp only
      cases hc : t.server.sessions c with
      | none =>
          -- Without a session the plain server does nothing either.
          have hidle : t.server.step env (.request c m) = t.server := by
            simp [Server.step, hhalt, hc]
          have hseen : ConsoleEnds env t (.request c m)
              { t with server := t.server.step env (.request c m) } :=
            .seen _ hhalt fun u _ hu => absurd (hc.symm.trans hu) (by simp)
          rwa [hidle] at hseen
      | some u =>
          show ConsoleEnds env t _ (t.handleRequest env c m)
          unfold Console.handleRequest
          cases hprinted : m.printed with
          | error e =>
              obtain rfl := print_error hprinted
              exact .stopped c m hhalt hprinted
          | ok text =>
              cases text with
              | none => exact .taken c m hthreads hfree ((print_endless m).1.mp hprinted)
              | some text => exact .seen _ hhalt fun _ _ _ => ⟨text, hprinted⟩

/-- The printing server has seen `es` and the plain one `served`. Every request that came to a
session of the plain server was printed first. No event is left out while no thread is lost and the
process runs. -/
structure Prints (env : Env) (w : World) (threads : Nat) (es served : List Event) (t : Console) :
    Prop where
  sublist : served.Sublist es
  printable : Along (Server.step env) (OnRequest fun _ _ m => Printable m) (Server.start w) served
  server : t.server = run (Server.step env) (Server.start w) served ∨
    PrintStops es ∧ t.server = stoppedAt (run (Server.step env) (Server.start w) served)
  threads_eq : t.threads + t.blocked.length = threads
  nodup : t.blocked.Nodup
  blocked : ∀ c ∈ t.blocked, ∃ m, Event.request c m ∈ es ∧ Endless m
  front : t.threads ≠ 0 → t.blocked = [] → served <+: es
  all : t.threads ≠ 0 → t.blocked = [] → t.server.halt = none → served = es

/-- A print that stops the process is never taken back. -/
theorem PrintStops.mono {es : List Event} (h : PrintStops es) (e : Event) :
    PrintStops (es ++ [e]) := by
  obtain ⟨c, m, hm, hstops⟩ := h
  exact ⟨c, m, List.mem_append_left _ hm, hstops⟩

variable {env : Env} {w : World} {threads : Nat} {es served : List Event} {t : Console}

/-- At the start nothing was printed. -/
theorem prints_start : Prints env w threads [] [] (Console.start threads w) where
  sublist := List.Sublist.refl []
  printable := trivial
  server := Or.inl rfl
  threads_eq := rfl
  nodup := List.nodup_nil
  blocked := by simp [Console.start]
  front := fun _ _ => List.prefix_refl []
  all := fun _ _ _ => rfl

/-- A connection whose print never ends stays so. -/
theorem blocked_mono {c : Nat} (h : ∃ m, Event.request c m ∈ es ∧ Endless m) (e : Event) :
    ∃ m, Event.request c m ∈ es ++ [e] ∧ Endless m := by
  obtain ⟨m, hm, hendless⟩ := h
  exact ⟨m, List.mem_append_left _ hm, hendless⟩

/-- While the printing server runs, the plain one is in the same state. -/
theorem Prints.running (h : Prints env w threads es served t) (hhalt : t.server.halt = none) :
    t.server = run (Server.step env) (Server.start w) served := by
  rcases h.server with hserver | ⟨-, hserver⟩
  · exact hserver
  · rw [hserver] at hhalt
    cases hhalt

/-- An event that the printing server drops. -/
theorem Prints.dropped (h : Prints env w threads es served t) {e : Event}
    (hwhy : t.server.halt = none → t.threads ≠ 0 → e.strand ∈ t.blocked) :
    Prints env w threads (es ++ [e]) served t where
  sublist := h.sublist.trans (List.sublist_append_left es [e])
  printable := h.printable
  server := h.server.imp_right fun hstops => ⟨hstops.1.mono e, hstops.2⟩
  threads_eq := h.threads_eq
  nodup := h.nodup
  blocked := fun c hc => blocked_mono (h.blocked c hc) e
  front := fun hthreads hblocked => (h.front hthreads hblocked).trans (List.prefix_append es [e])
  all := by
    intro hthreads hblocked hhalt
    have hmem := hwhy hhalt hthreads
    rw [hblocked] at hmem
    cases hmem

/-- An event that both servers see. -/
theorem Prints.seen (h : Prints env w threads es served t) (hhalt : t.server.halt = none)
    {e : Event} (he : OnRequest (fun _ _ m => Printable m) t.server e) :
    Prints env w threads (es ++ [e]) (served ++ [e]) { t with server := t.server.step env e } where
  sublist := h.sublist.append (List.Sublist.refl [e])
  printable := by
    rw [h.running hhalt] at he
    exact along_append.mpr ⟨h.printable, he, trivial⟩
  server := by
    rw [run_append, ← h.running hhalt]
    exact Or.inl rfl
  threads_eq := h.threads_eq
  nodup := h.nodup
  blocked := fun c hc => blocked_mono (h.blocked c hc) e
  front := by
    intro hthreads hblocked
    rw [h.all hthreads hblocked hhalt]
  all := by
    intro hthreads hblocked _
    rw [h.all hthreads hblocked hhalt]

/-- A request whose print stops the process. -/
theorem Prints.stopped (h : Prints env w threads es served t) (hhalt : t.server.halt = none)
    {c : Nat} {m : Message} (hprinted : m.printed = .error .undefinedBehavior) :
    Prints env w threads (es ++ [.request c m]) served
      { t with server := stoppedAt t.server } where
  sublist := h.sublist.trans (List.sublist_append_left es _)
  printable := h.printable
  server := by
    rw [h.running hhalt]
    exact Or.inr ⟨⟨c, m, by simp, hprinted⟩, rfl⟩
  threads_eq := h.threads_eq
  nodup := h.nodup
  blocked := fun c hc => blocked_mono (h.blocked c hc) _
  front := fun hthreads hblocked => (h.front hthreads hblocked).trans (List.prefix_append es _)
  all := fun _ _ hrunning => by cases hrunning

/-- A request whose print takes a thread. -/
theorem Prints.taken (h : Prints env w threads es served t) {c : Nat} {m : Message}
    (hthreads : t.threads ≠ 0) (hfree : c ∉ t.blocked) (hendless : Endless m) :
    Prints env w threads (es ++ [.request c m]) served
      { t with
        threads := t.threads - 1
        blocked := c :: t.blocked } where
  sublist := h.sublist.trans (List.sublist_append_left es _)
  printable := h.printable
  server := h.server.imp_right fun hstops => ⟨hstops.1.mono _, hstops.2⟩
  threads_eq := by
    have heq := h.threads_eq
    show t.threads - 1 + (t.blocked.length + 1) = threads
    omega
  nodup := List.nodup_cons.mpr ⟨hfree, h.nodup⟩
  blocked := by
    intro c' hc'
    rcases List.mem_cons.mp hc' with rfl | hc'
    · exact ⟨m, by simp, hendless⟩
    · exact blocked_mono (h.blocked c' hc') _
  front := fun _ hblocked => by cases hblocked
  all := fun _ hblocked => by cases hblocked

/-- One event. -/
theorem prints_step (h : Prints env w threads es served t) (e : Event) :
    ∃ served', Prints env w threads (es ++ [e]) served' (t.step env e) := by
  have hends := console_ends env t e
  generalize t.step env e = t' at hends ⊢
  cases hends with
  | dropped _ hwhy => exact ⟨served, h.dropped hwhy⟩
  | seen _ hhalt hprinted => exact ⟨served ++ [e], h.seen hhalt hprinted⟩
  | stopped c m hhalt hprinted => exact ⟨served, h.stopped hhalt hprinted⟩
  | taken c m hthreads hfree hendless => exact ⟨served, h.taken hthreads hfree hendless⟩

/-- Where no request declares a negative length, no thread is lost, and a request that reaches a
session has a decoder that stays inside its buffer. -/
theorem Prints.of_small (h : Prints env w threads es served t)
    (hsmall : ∀ c m, Event.request c m ∈ es → smallLengths (m.raw.drop 1) = true) :
    t.blocked = [] ∧ Along (Server.step env) (OnRequest fun _ _ m => InBuffer m) (Server.start w)
      served := by
  constructor
  · rw [List.eq_nil_iff_forall_not_mem]
    intro c hc
    obtain ⟨m, hm, hendless⟩ := h.blocked c hc
    exact not_endless (hsmall c m hm) ((print_endless m).1.mpr hendless)
  · rw [along_iff]
    intro pre e post hserved
    have hprinted := (along_iff _ _ _).mp h.printable pre e post hserved
    cases e with
    | accept => trivial
    | shutdown => trivial
    | request c m =>
        intro u hhalt hu
        have hm : Event.request c m ∈ es := h.sublist.subset (by simp [hserved])
        obtain ⟨msgType, tlvs, hlens, rfl⟩ :=
          (printed_iff (hsmall c m hm)).mp (hprinted u hhalt hu)
        exact inBuffer_encode msgType hlens

/-- Every run of the printing server is a run of the plain one, of some of its events, in which
every request that reaches a session was printed first; at its end a print may have stopped the
process. Every thread that is lost is one of a connection whose request is printed for ever. Where
no request declares a negative length, no thread is lost, no event is left out while the process
runs, and no request reaches a session whose TLVs lead out of its buffer. -/
theorem printing_refines_server (env : Env) (w : World) (threads : Nat) (es : List Event) :
    ∃ served, Prints env w threads es served
        (run (Console.step env) (Console.start threads w) es) ∧
      (threads ≠ 0 →
        (∀ c m, Event.request c m ∈ es → smallLengths (m.raw.drop 1) = true) →
        (run (Console.step env) (Console.start threads w) es).threads = threads ∧
        served <+: es ∧
        ((run (Console.step env) (Console.start threads w) es).server.halt = none →
          served = es) ∧
        Along (Server.step env) (OnRequest fun _ _ m => InBuffer m) (Server.start w) served) := by
  have hprints : ∃ served, Prints env w threads es served
      (run (Console.step env) (Console.start threads w) es) := by
    induction es using List.reverseRecOn with
    | nil => exact ⟨[], prints_start⟩
    | append_singleton es e ih =>
        obtain ⟨served, h⟩ := ih
        rw [run_append]
        exact prints_step h e
  obtain ⟨served, h⟩ := hprints
  refine ⟨served, h, fun hthreads hsmall => ?_⟩
  obtain ⟨hblocked, hinBuffer⟩ := h.of_small hsmall
  have heq := h.threads_eq
  rw [hblocked, List.length_nil, Nat.add_zero] at heq
  rw [← heq] at hthreads
  exact ⟨heq, h.front hthreads hblocked, h.all hthreads hblocked, hinBuffer⟩

/-- `bobby` logs in and sends the first chunk of `/a`. -/
def bobbySends : List Event :=
  bobbyLogin ++ [.request 0 (chunk .create (ascii "/a") (ascii "00") (ascii "hi") false)]

/-- A server with two threads keeps both, and serves all that `bobby` sends. -/
theorem printing_refines_server_bobby :
    (run (Console.step (bobbyAndBobEnv [])) (Console.start 2 bobbyWorld) bobbySends).threads = 2 ∧
      Prints (bobbyAndBobEnv []) bobbyWorld 2 bobbySends bobbySends
        (run (Console.step (bobbyAndBobEnv [])) (Console.start 2 bobbyWorld) bobbySends) ∧
      Along (Server.step (bobbyAndBobEnv [])) (OnRequest fun _ _ m => InBuffer m)
        (Server.start bobbyWorld) bobbySends := by
  obtain ⟨served, hprints, hsmall⟩ :=
    printing_refines_server (bobbyAndBobEnv []) bobbyWorld 2 bobbySends
  obtain ⟨hthreads, -, hall, hinBuffer⟩ := hsmall (by decide) fun c m hm => by
    simp only [bobbySends, bobbyLogin, List.mem_append, List.mem_cons, List.not_mem_nil, or_false,
      Event.request.injEq, reduceCtorEq, false_or] at hm
    rcases hm with (⟨-, rfl⟩ | ⟨-, rfl⟩) | ⟨-, rfl⟩ <;>
      exact smallLengths_encode _ (by decide +kernel)
  obtain rfl := hall (by decide +kernel)
  exact ⟨hthreads, hprints, hinBuffer⟩

/-- A server with one thread, and a client whose CONTENT has a length that stands for `-5`: it needs
no login to take the thread. -/
example : (run (Console.step (Env.ofTables [] none [] []))
    (Console.start 1 (World.ofDisk Disk.empty))
    [.accept 0 false false [], .request 0 ⟨[5, 6, 255, 255, 255, 251]⟩]).threads = 0 := by
  decide +kernel

end RemoteBackup.Proofs
