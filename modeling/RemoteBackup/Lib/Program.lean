import RemoteBackup.Lib.Run
import Mathlib.Data.List.Induction
import Mathlib.Logic.Function.Iterate

/-!
# `RemoteBackup.Lib.Program`: programs of calls, alone and in a pool

A program is a tree of calls. `Op` are the calls, `Answer op` is what a call can answer, and
`exec` says what it does to a shared state. `Prog.run` runs a program by itself. A `Pool` holds
one program for each thread of a process; a step runs the next call of one of them, so a list of
threads is an interleaving. `ends` are the results that end the process.

* `Prog.after`: a program that runs alone, after some of its calls. `Throughout I`: it meets `I`
  between any two of them.
* `Behaves P ok Q`: whatever its calls answer within `ok`, the calls of the program meet `P` and
  its result meets `Q`. `Behaves.bind` is the rule for sequences, `Behaves.run` the rule for an
  invariant.
* `Separate`: the threads look at parts of the state that the others leave alone. This is asked of
  single calls.
* `Separate.pool`: the induction on the schedule. A thread in the pool is where it would be alone
  after the part of the schedule that was run.
* `Separate.finished`, `Separate.finishes`: it has the result that it would have alone, after as
  many calls of its own if the process has not ended.
-/

set_option autoImplicit false

namespace RemoteBackup.Lib

/-- A program: a result, or a call and how to go on with its answer. -/
inductive Prog (Op : Type) (Answer : Op → Type) (α : Type) where
  | done (a : α)
  | call (op : Op) (next : Answer op → Prog Op Answer α)

variable {Op : Type} {Answer : Op → Type} {σ ι α β : Type}

namespace Prog

variable (exec : (op : Op) → σ → σ × Answer op)

/-- One program after another. -/
def bind : Prog Op Answer α → (α → Prog Op Answer β) → Prog Op Answer β
  | .done a, f => f a
  | .call op next, f => .call op fun answer => (next answer).bind f

/-- The state after a program that runs alone, and its result. -/
def run : Prog Op Answer α → σ → σ × α
  | .done a, s => (s, a)
  | .call op next, s => (next (exec op s).2).run (exec op s).1

/-- The number of calls that a program makes when it runs alone. -/
def length : Prog Op Answer α → σ → Nat
  | .done _, _ => 0
  | .call op next, s => (next (exec op s).2).length (exec op s).1 + 1

variable {exec}

/-- A program makes its first call, and goes on with the answer. -/
@[simp] theorem run_call (op : Op) (next : Answer op → Prog Op Answer α) (s : σ) :
    (call op next).run exec s = (next (exec op s).2).run exec (exec op s).1 := rfl

/-- A program in two parts runs the one and then the other. -/
theorem run_bind (p : Prog Op Answer α) (f : α → Prog Op Answer β) (s : σ) :
    (p.bind f).run exec s = (f (p.run exec s).2).run exec (p.run exec s).1 := by
  induction p generalizing s with
  | done a => rfl
  | call op next ih => exact ih (exec op s).2 (exec op s).1

/-! ### One call after the other -/

variable (exec) in
/-- The next call of a program that runs alone. -/
def step : σ × Prog Op Answer α → σ × Prog Op Answer α
  | (s, .done a) => (s, .done a)
  | (s, .call op next) => ((exec op s).1, next (exec op s).2)

variable (exec) in
/-- The state after `n` calls, and what is left of the program. -/
def after (p : Prog Op Answer α) (s : σ) (n : Nat) : σ × Prog Op Answer α :=
  (step exec)^[n] (s, p)

/-- One more call. -/
theorem after_succ (p : Prog Op Answer α) (s : σ) (n : Nat) :
    p.after exec s (n + 1) = step exec (p.after exec s n) :=
  Function.iterate_succ_apply' ..

/-- A program that is done stays where it is. -/
theorem after_done (a : α) (s : σ) (n : Nat) :
    (done a : Prog Op Answer α).after exec s n = (s, .done a) := by
  induction n with
  | zero => rfl
  | succ n ih => rw [after_succ, ih, step]

/-- What is left goes on as the whole would have. -/
theorem run_after (p : Prog Op Answer α) (s : σ) (n : Nat) :
    (p.after exec s n).2.run exec (p.after exec s n).1 = p.run exec s := by
  induction n with
  | zero => rfl
  | succ n ih =>
      rw [after_succ, ← ih]
      obtain ⟨t, _ | _⟩ := p.after exec s n <;> rfl

/-- Every call is one less to make. -/
theorem length_after (p : Prog Op Answer α) (s : σ) (n : Nat) :
    (p.after exec s n).2.length exec (p.after exec s n).1 = p.length exec s - n := by
  induction n with
  | zero => rfl
  | succ n ih =>
      rw [after_succ, Nat.sub_add_eq, ← ih]
      obtain ⟨t, _ | _⟩ := p.after exec s n <;> rfl

/-- After all its calls a program is done. -/
theorem after_of_length {p : Prog Op Answer α} {s : σ} {n : Nat} (h : p.length exec s ≤ n) :
    p.after exec s n = ((p.run exec s).1, .done (p.run exec s).2) := by
  have hlength := @length_after _ _ _ _ exec p s n
  rw [Nat.sub_eq_zero_of_le h] at hlength
  rw [← p.run_after s n]
  generalize p.after exec s n = left at hlength ⊢
  obtain ⟨t, a | ⟨op, next⟩⟩ := left
  · rfl
  · exact absurd hlength (Nat.succ_ne_zero _)

variable (exec) in
/-- A program that runs alone meets `I` before and after each of its calls. -/
def Throughout (I : σ → Prop) (p : Prog Op Answer α) (s : σ) : Prop :=
  ∀ n, I (p.after exec s n).1

/-- A program that is done passes one state only. -/
theorem throughout_done {I : σ → Prop} {a : α} {s : σ} (h : I s) :
    (done a : Prog Op Answer α).Throughout exec I s := by
  intro n
  rw [after_done]
  exact h

/-- One call in front. -/
theorem throughout_call {I : σ → Prop} {op : Op} {next : Answer op → Prog Op Answer α} {s s' : σ}
    {answer : Answer op} (hexec : exec op s = (s', answer)) (hs : I s)
    (h : (next answer).Throughout exec I s') : (call op next).Throughout exec I s := by
  intro n
  cases n with
  | zero => exact hs
  | succ n =>
      have hn := h n
      rw [after, Function.iterate_succ_apply, step, hexec]
      exact hn

/-- What holds throughout both parts holds throughout. -/
theorem Throughout.bind {I : σ → Prop} {p : Prog Op Answer α} {f : α → Prog Op Answer β} {s : σ}
    (h : p.Throughout exec I s)
    (hf : (f (p.run exec s).2).Throughout exec I (p.run exec s).1) :
    (p.bind f).Throughout exec I s := by
  induction p generalizing s with
  | done a => exact hf
  | call op next ih => exact throughout_call rfl (h 0) (ih _ (fun n => h (n + 1)) hf)

/-! ### Invariants -/

/-- Whatever the calls answer within `ok`, they meet `P`, and the result meets `Q`. -/
def Behaves (P : Op → Prop) (ok : (op : Op) → Answer op → Prop) (Q : α → Prop) :
    Prog Op Answer α → Prop
  | .done a => Q a
  | .call op next => P op ∧ ∀ answer, ok op answer → Behaves P ok Q (next answer)

variable {P P' : Op → Prop} {ok : (op : Op) → Answer op → Prop} {Q : α → Prop}

/-- Two parts that behave do so together, the second on each result of the first. -/
theorem Behaves.bind {R : β → Prop} {p : Prog Op Answer α} {f : α → Prog Op Answer β}
    (h : p.Behaves P ok Q) (hf : ∀ a, Q a → (f a).Behaves P ok R) :
    (p.bind f).Behaves P ok R := by
  induction p with
  | done a => exact hf a h
  | call op next ih => exact ⟨h.1, fun answer hanswer => ih answer (h.2 answer hanswer)⟩

/-- A program that behaves has every weaker result. -/
theorem Behaves.mono {Q' : α → Prop} {p : Prog Op Answer α} (h : p.Behaves P ok Q)
    (hQ : ∀ a, Q a → Q' a) : p.Behaves P ok Q' := by
  induction p with
  | done a => exact hQ a h
  | call op next ih => exact ⟨h.1, fun answer hanswer => ih answer (h.2 answer hanswer)⟩

/-- The invariant rule: what the calls that meet `P` keep, the program keeps. They must answer
within `ok` in the states of the invariant. -/
theorem Behaves.run {I : σ → Prop} {p : Prog Op Answer α} (h : p.Behaves P ok Q)
    (hexec : ∀ op s, P op → I s → I (exec op s).1 ∧ ok op (exec op s).2) {s : σ} (hs : I s) :
    I (p.run exec s).1 ∧ Q (p.run exec s).2 := by
  induction p generalizing s with
  | done a => exact ⟨hs, h⟩
  | call op next ih =>
      obtain ⟨hI, hok⟩ := hexec op s h.1 hs
      exact ih _ (h.2 _ hok) hI

end Prog

/-! ### Pools -/

/-- Threads that share a state, and whether their process has ended. -/
structure Pool (Op : Type) (Answer : Op → Type) (σ ι α : Type) where
  state : σ
  threads : ι → Prog Op Answer α
  ended : Bool

variable [DecidableEq ι] (exec : (op : Op) → σ → σ × Answer op) (ends : α → Bool)

/-- Thread `i` goes on: it makes its next call, or it is done and ends the process if its result is
one of `ends`. -/
def Pool.step (pool : Pool Op Answer σ ι α) (i : ι) : Pool Op Answer σ ι α :=
  if pool.ended then pool
  else
    match pool.threads i with
    | .done a => { pool with ended := ends a }
    | .call op next =>
        { pool with
          state := (exec op pool.state).1
          threads := Function.update pool.threads i (next (exec op pool.state).2) }

/-- The calls of a thread, those that meet `P i`, look at a part of the state and leave the parts
of the other threads alone. `R i s t`: thread `i` cannot tell `s` from `t`. `I` is kept by all
calls. -/
structure Separate (P : ι → Op → Prop) (ok : (op : Op) → Answer op → Prop)
    (R : ι → σ → σ → Prop) (I : σ → Prop) : Prop where
  refl : ∀ i s, R i s s
  keeps : ∀ i op s, P i op → I s → I (exec op s).1 ∧ ok op (exec op s).2
  own : ∀ i op s t, P i op → I s → I t → R i s t →
    R i (exec op s).1 (exec op t).1 ∧ (exec op t).2 = (exec op s).2
  other : ∀ i j op s t, j ≠ i → P j op → I s → R i s t → R i (exec op s).1 t

variable {exec ends}

namespace Separate

variable {P : ι → Op → Prop} {ok : (op : Op) → Answer op → Prop} {R : ι → σ → σ → Prop}
  {I : σ → Prop} (h : Separate exec P ok R I)
include h

/-- A thread in a pool is where it would be alone: it has made as many of its calls as the process
let it, and it cannot tell the state of the pool from the state that these calls leave alone.
`made` is what was run of the schedule. -/
theorem pool {Q : ι → α → Prop} {s : σ} {ps : ι → Prog Op Answer α} (hs : I s)
    (hps : ∀ i, (ps i).Behaves (P i) ok (Q i)) (schedule : List ι) :
    ∃ made, made <+: schedule ∧
      ((Lib.run (Pool.step exec ends) ⟨s, ps, false⟩ schedule).ended = false → made = schedule) ∧
      I (Lib.run (Pool.step exec ends) ⟨s, ps, false⟩ schedule).state ∧
      ∀ i, ((Lib.run (Pool.step exec ends) ⟨s, ps, false⟩ schedule).threads i).Behaves
          (P i) ok (Q i) ∧
        (Lib.run (Pool.step exec ends) ⟨s, ps, false⟩ schedule).threads i =
          ((ps i).after exec s (made.count i)).2 ∧
        R i (Lib.run (Pool.step exec ends) ⟨s, ps, false⟩ schedule).state
          ((ps i).after exec s (made.count i)).1 ∧
        I ((ps i).after exec s (made.count i)).1 := by
  induction schedule using List.reverseRecOn with
  | nil => exact ⟨[], List.prefix_refl _, fun _ => rfl, hs, fun i => ⟨hps i, rfl, h.refl i s, hs⟩⟩
  | append_singleton schedule j ih =>
      rw [run_append, run_singleton]
      generalize Lib.run (Pool.step exec ends) ⟨s, ps, false⟩ schedule = pool at ih ⊢
      obtain ⟨made, hmade, hall, hpool, hthreads⟩ := ih
      unfold Pool.step
      cases hended : pool.ended with
      | true =>
          rw [if_pos rfl]
          exact ⟨made, hmade.trans (List.prefix_append _ _), fun h => absurd (hended.symm.trans h)
            (by simp), hpool, hthreads⟩
      | false =>
          rw [if_neg (by simp)]
          obtain rfl := hall hended
          refine ⟨made ++ [j], List.prefix_refl _, fun _ => rfl, ?_⟩
          -- A thread that makes no call stays where it is.
          have hstays : ∀ i, i ≠ j → (made ++ [j]).count i = made.count i := by
            intro i hij
            rw [List.count_append, List.count_singleton, if_neg (by simp [Ne.symm hij]),
              Nat.add_zero]
          have hmoves : (made ++ [j]).count j = made.count j + 1 := by
            rw [List.count_append, List.count_singleton_self]
          cases hj : pool.threads j with
          | done a =>
              refine ⟨hpool, fun i => ?_⟩
              obtain ⟨hbehaves, hthread, hR, ht⟩ := hthreads i
              by_cases hij : i = j
              · subst hij
                rw [hmoves, Prog.after_succ]
                rw [hj] at hthread
                generalize (ps i).after exec s (made.count i) = alone at hthread hR ht ⊢
                obtain ⟨t, q⟩ := alone
                obtain rfl : .done a = q := hthread
                exact ⟨hbehaves, hj, hR, ht⟩
              · rw [hstays i hij]
                exact ⟨hbehaves, hthread, hR, ht⟩
          | call op next =>
              obtain ⟨hbehavesj, -⟩ := hthreads j
              rw [hj] at hbehavesj
              obtain ⟨hI, hok⟩ := h.keeps j op pool.state hbehavesj.1 hpool
              refine ⟨hI, fun i => ?_⟩
              obtain ⟨hbehaves, hthread, hR, ht⟩ := hthreads i
              dsimp only
              by_cases hij : i = j
              · -- Its own call, which it also makes alone.
                subst hij
                rw [hmoves, Prog.after_succ, Function.update_self]
                rw [hj] at hthread
                generalize (ps i).after exec s (made.count i) = alone at hthread hR ht ⊢
                obtain ⟨t, q⟩ := alone
                obtain rfl : .call op next = q := hthread
                obtain ⟨hR', hanswer⟩ := h.own i op pool.state t hbehavesj.1 hpool ht hR
                refine ⟨hbehavesj.2 _ hok, ?_, hR', (h.keeps i op t hbehavesj.1 ht).1⟩
                show next (exec op pool.state).2 = next (exec op t).2
                rw [hanswer]
              · rw [hstays i hij, Function.update_of_ne hij]
                have hR' := h.other i j op pool.state _ (Ne.symm hij) hbehavesj.1 hpool hR
                exact ⟨hbehaves, hthread, hR', ht⟩

/-- A thread that is done has the result that it has alone, and cannot tell the state of the pool
from the state that it leaves alone. -/
theorem finished {Q : ι → α → Prop} {s : σ} {ps : ι → Prog Op Answer α} (hs : I s)
    (hps : ∀ i, (ps i).Behaves (P i) ok (Q i)) {schedule : List ι} {i : ι} {a : α}
    (ha : (Lib.run (Pool.step exec ends) ⟨s, ps, false⟩ schedule).threads i = .done a) :
    a = ((ps i).run exec s).2 ∧
      R i (Lib.run (Pool.step exec ends) ⟨s, ps, false⟩ schedule).state
        ((ps i).run exec s).1 := by
  obtain ⟨made, -, -, -, hthreads⟩ := h.pool hs hps schedule
  obtain ⟨-, hthread, hR, -⟩ := hthreads i
  rw [ha] at hthread
  rw [← (ps i).run_after s (made.count i), ← hthread]
  exact ⟨rfl, hR⟩

/-- While the process runs, a thread is done after as many calls as it makes alone. -/
theorem finishes {Q : ι → α → Prop} {s : σ} {ps : ι → Prog Op Answer α} (hs : I s)
    (hps : ∀ i, (ps i).Behaves (P i) ok (Q i)) {schedule : List ι} {i : ι}
    (hrunning : (Lib.run (Pool.step exec ends) ⟨s, ps, false⟩ schedule).ended = false)
    (hcount : (ps i).length exec s ≤ schedule.count i) :
    ∃ a, (Lib.run (Pool.step exec ends) ⟨s, ps, false⟩ schedule).threads i = .done a := by
  obtain ⟨made, -, hall, -, hthreads⟩ := h.pool hs hps schedule
  obtain rfl := hall hrunning
  obtain ⟨-, hthread, -⟩ := hthreads i
  rw [Prog.after_of_length hcount] at hthread
  exact ⟨_, hthread⟩

end Separate

end RemoteBackup.Lib
