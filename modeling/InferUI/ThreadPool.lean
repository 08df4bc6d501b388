import InferUI.Monitor
import Mathlib.Algebra.Order.Ring.Nat
import Mathlib.Algebra.Group.Prod
import Mathlib.Data.Multiset.Range

/-!
# The thread pool

`SimpleThreadPool` of `util/thread/work_queue.h`: clients that add tasks, stop and join the pool as
their programs say, and the workers they create. A task returns and does not use the pool itself.
-/

namespace InferUI
open Monitor System

/-- The pool, with the tasks that were added to it, taken from it and run to their end so far.
A thread is known by the number of threads created before it. -/
structure SimpleThreadPool (Task : Type) where
  numThreads : Nat
  maxQueueSize : Nat
  queue : List Task
  threads : List Nat
  stopped : Bool
  joined : Bool
  /-- A `CHECK` failed. -/
  crashed : Bool
  created : Nat
  returned : List Nat
  added : List Task
  started : List Task
  finished : List Task

namespace SimpleThreadPool
variable {Task K : Type}

def new (Task : Type) (numThreads maxQueueSize : Nat) : SimpleThreadPool Task :=
  ⟨numThreads, maxQueueSize, [], [], false, false, false, 0, [], [], [], []⟩

/-- What a client does next, and how it goes on from there. -/
inductive Call (Task K : Type)
  | done
  | addTask (f : Task) (k : K)
  | stopAll (k : K)
  | joinAll (k : K)

inductive CondVar
  | empty
  | full
  deriving DecidableEq

/-- Where a thread is: a client outside the pool, in `AddTask`, in `StopAll` or in `JoinAll`, or a
worker. -/
inductive Thread (Task K : Type)
  | outside (k : K)
  | adding (f : Task) (k : K)
  /-- Between `unlock` and `StartThread`. -/
  | creating (f : Task) (k : K)
  /-- With a new thread that is not in `threads_` yet. -/
  | registering (id : Nat) (f : Task) (k : K)
  | waitingFull (f : Task) (k : K)
  /-- Woken, and at the loop condition again. -/
  | retrying (f : Task) (k : K)
  /-- Before the `notify_all` on `cond_var_empty_` of `AddTask` and `StopAll`. -/
  | notifyingEmpty (k : K)
  | stopping (k : K)
  /-- Before the `notify_all` on `cond_var_full_`. -/
  | notifyingFull (k : K)
  | joiningAll (k : K)
  /-- Before the `notify_all` on `cond_var_empty_` of `JoinAll`. -/
  | closing (k : K)
  /-- At `threads_[i].join()`. -/
  | joining (i : Nat) (k : K)
  | working (id : Nat)
  | asleep (id : Nat)
  /-- Before the `notify_one` on `cond_var_full_`. -/
  | took (id : Nat) (f : Task)
  | running (id : Nat) (f : Task)
  | returned (id : Nat)

namespace Thread

/-- The loop at the end of `AddTask`. -/
def enqueue (f : Task) (k : K) (s : SimpleThreadPool Task) :
    Thread Task K × SimpleThreadPool Task :=
  if s.maxQueueSize ≤ s.queue.length then
    if s.stopped then (outside k, s) else (waitingFull f k, s)
  else (notifyingEmpty k, { s with queue := s.queue ++ [f], added := s.added ++ [f] })

/-- The loop of a worker up to the task that it takes, its end or its wait. -/
def work (id : Nat) (s : SimpleThreadPool Task) : Thread Task K × SimpleThreadPool Task :=
  match s.queue with
  | [] =>
    if s.joined || s.stopped then (returned id, { s with returned := s.returned ++ [id] })
    else (asleep id, s)
  | f :: rest =>
    if s.stopped then (returned id, { s with returned := s.returned ++ [id] })
    else (took id f, { s with queue := rest, started := s.started ++ [f] })

def act (call : K → Call Task K) : Thread Task K → SimpleThreadPool Task →
    Option (Thread Task K × SimpleThreadPool Task × List (Thread Task K))
  | outside k, s =>
    match call k with
    | .done => none
    | .addTask f k => some (adding f k, s, [])
    | .stopAll k => some (stopping k, s, [])
    | .joinAll k => some (joiningAll k, s, [])
  | adding f k, s =>
    if s.joined then some (adding f k, { s with crashed := true }, [])
    else if s.threads.length < s.numThreads then some (creating f k, s, [])
    else some ((enqueue f k s).1, (enqueue f k s).2, [])
  | creating f k, s =>
    some (registering s.created f k, { s with created := s.created + 1 }, [working s.created])
  | registering id f k, s =>
    if s.joined then some (registering id f k, { s with crashed := true }, [])
    else
      let s := { s with threads := s.threads ++ [id] }
      some ((enqueue f k s).1, (enqueue f k s).2, [])
  | retrying f k, s => some ((enqueue f k s).1, (enqueue f k s).2, [])
  | stopping k, s => some (notifyingFull k, { s with stopped := true }, [])
  | joiningAll k, s =>
    if s.joined then some (outside k, s, []) else some (closing k, { s with joined := true }, [])
  | joining i k, s =>
    match s.threads[i]? with
    | none => some (outside k, s, [])
    | some id => if id ∈ s.returned then some (joining (i + 1) k, s, []) else none
  | working id, s => some ((work id s).1, (work (K := K) id s).2, [])
  | running id f, s => some (working id, { s with finished := s.finished ++ [f] }, [])
  | _, _ => none

def waits : Thread Task K → Option CondVar
  | waitingFull _ _ => some .full
  | asleep _ => some .empty
  | _ => none

def woken : Thread Task K → Thread Task K
  | waitingFull f k => retrying f k
  | asleep id => working id
  | l => l

def notifiesOne : Thread Task K → Option (CondVar × Thread Task K)
  | took id f => some (.full, running id f)
  | _ => none

def notifiesAll : Thread Task K → Option (CondVar × Thread Task K)
  | notifyingEmpty k => some (.empty, outside k)
  | notifyingFull k => some (.full, notifyingEmpty k)
  | closing k => some (.empty, joining 0 k)
  | _ => none

/-! ### The ways through -/

inductive Enqueues (f : Task) (k : K) (s : SimpleThreadPool Task) :
    Thread Task K → SimpleThreadPool Task → Prop
  | giveUp (hfull : s.maxQueueSize ≤ s.queue.length) (hstopped : s.stopped = true) :
      Enqueues f k s (outside k) s
  | wait (hfull : s.maxQueueSize ≤ s.queue.length) (hstopped : s.stopped = false) :
      Enqueues f k s (waitingFull f k) s
  | push (hfree : s.queue.length < s.maxQueueSize) :
      Enqueues f k s (notifyingEmpty k)
        { s with queue := s.queue ++ [f], added := s.added ++ [f] }

theorem enqueues (f : Task) (k : K) (s : SimpleThreadPool Task) :
    Enqueues f k s (enqueue f k s).1 (enqueue f k s).2 := by
  rw [enqueue]
  split
  · split
    · exact .giveUp ‹_› ‹_›
    · exact .wait ‹_› (Bool.eq_false_of_not_eq_true ‹_›)
  · exact .push (by omega)

inductive Works (id : Nat) (s : SimpleThreadPool Task) :
    Thread Task K → SimpleThreadPool Task → Prop
  | giveUp (hend : s.stopped = true ∨ s.queue = [] ∧ s.joined = true) :
      Works id s (returned id) { s with returned := s.returned ++ [id] }
  | wait (hqueue : s.queue = []) (hjoined : s.joined = false) (hstopped : s.stopped = false) :
      Works id s (asleep id) s
  | take {f : Task} {rest : List Task} (hqueue : s.queue = f :: rest)
      (hstopped : s.stopped = false) :
      Works id s (took id f) { s with queue := rest, started := s.started ++ [f] }

theorem works (id : Nat) (s : SimpleThreadPool Task) :
    Works id s (work (K := K) id s).1 (work (K := K) id s).2 := by
  rw [work]
  split
  · split
    · rename_i hqueue hend
      rw [Bool.or_eq_true] at hend
      exact .giveUp (hend.symm.imp_right fun hjoined => ⟨hqueue, hjoined⟩)
    · rename_i hqueue hend
      rw [Bool.not_eq_true, Bool.or_eq_false_iff] at hend
      exact .wait hqueue hend.1 hend.2
  · split
    · exact .giveUp (.inl ‹_›)
    · exact .take ‹_› (Bool.eq_false_of_not_eq_true ‹_›)

inductive Acts (call : K → Call Task K) : Thread Task K → SimpleThreadPool Task →
    Thread Task K → SimpleThreadPool Task → List (Thread Task K) → Prop
  | callAddTask {k k' : K} {f : Task} {s} (h : call k = .addTask f k') :
      Acts call (outside k) s (adding f k') s []
  | callStopAll {k k' : K} {s} (h : call k = .stopAll k') :
      Acts call (outside k) s (stopping k') s []
  | callJoinAll {k k' : K} {s} (h : call k = .joinAll k') :
      Acts call (outside k) s (joiningAll k') s []
  | addCrash {f : Task} {k : K} {s} (h : s.joined = true) :
      Acts call (adding f k) s (adding f k) { s with crashed := true } []
  | grow {f : Task} {k : K} {s} (hjoined : s.joined = false)
      (h : s.threads.length < s.numThreads) : Acts call (adding f k) s (creating f k) s []
  | add {f : Task} {k : K} {s s' l'} (hjoined : s.joined = false)
      (hnum : s.numThreads ≤ s.threads.length) (h : Enqueues f k s l' s') :
      Acts call (adding f k) s l' s' []
  | create {f : Task} {k : K} {s} :
      Acts call (creating f k) s (registering s.created f k)
        { s with created := s.created + 1 } [working s.created]
  | registerCrash {id : Nat} {f : Task} {k : K} {s} (h : s.joined = true) :
      Acts call (registering id f k) s (registering id f k) { s with crashed := true } []
  | register {id : Nat} {f : Task} {k : K} {s s' l'} (hjoined : s.joined = false)
      (h : Enqueues f k { s with threads := s.threads ++ [id] } l' s') :
      Acts call (registering id f k) s l' s' []
  | retry {f : Task} {k : K} {s s' l'} (h : Enqueues f k s l' s') :
      Acts call (retrying f k) s l' s' []
  | stop {k : K} {s} :
      Acts call (stopping k) s (notifyingFull k) { s with stopped := true } []
  | joinedBefore {k : K} {s} (h : s.joined = true) :
      Acts call (joiningAll k) s (outside k) s []
  | close {k : K} {s} (h : s.joined = false) :
      Acts call (joiningAll k) s (closing k) { s with joined := true } []
  | join {i id : Nat} {k : K} {s} (hid : s.threads[i]? = some id) (h : id ∈ s.returned) :
      Acts call (joining i k) s (joining (i + 1) k) s []
  | joinedAll {i : Nat} {k : K} {s} (h : s.threads.length ≤ i) :
      Acts call (joining i k) s (outside k) s []
  | work {id : Nat} {s s' l'} (h : Works id s l' s') : Acts call (working id) s l' s' []
  | finish {id : Nat} {f : Task} {s} :
      Acts call (running id f) s (working id) { s with finished := s.finished ++ [f] } []

theorem acts_of_act {call : K → Call Task K} {l l' : Thread Task K} {s s' : SimpleThreadPool Task}
    {created : List (Thread Task K)} (h : l.act call s = some (l', s', created)) :
    Acts call l s l' s' created := by
  cases l with
  | outside k =>
    simp only [act] at h
    split at h
    · cases h
    · cases h
      exact .callAddTask ‹_›
    · cases h
      exact .callStopAll ‹_›
    · cases h
      exact .callJoinAll ‹_›
  | adding f k =>
    simp only [act] at h
    split at h
    · cases h
      exact .addCrash ‹_›
    · rename_i hjoined
      rw [Bool.not_eq_true] at hjoined
      split at h
      · cases h
        exact .grow hjoined ‹_›
      · cases h
        exact .add hjoined (Nat.not_lt.mp ‹_›) (enqueues f k s)
  | creating f k =>
    cases h
    exact .create
  | registering id f k =>
    simp only [act] at h
    split at h
    · cases h
      exact .registerCrash ‹_›
    · rename_i hjoined
      rw [Bool.not_eq_true] at hjoined
      cases h
      exact .register hjoined (enqueues f k _)
  | retrying f k =>
    cases h
    exact .retry (enqueues f k s)
  | stopping k =>
    cases h
    exact .stop
  | joiningAll k =>
    simp only [act] at h
    split at h
    · cases h
      exact .joinedBefore ‹_›
    · rename_i hjoined
      rw [Bool.not_eq_true] at hjoined
      cases h
      exact .close hjoined
  | joining i k =>
    simp only [act] at h
    split at h
    · cases h
      exact .joinedAll (List.getElem?_eq_none_iff.mp ‹_›)
    · split at h
      · cases h
        exact .join ‹_› ‹_›
      · cases h
  | working id =>
    cases h
    exact .work (works id s)
  | running id f =>
    cases h
    exact .finish
  | waitingFull | notifyingEmpty | notifyingFull | closing | asleep | took | returned => cases h

end Thread

def system (call : K → Call Task K) :
    System (Thread Task K) (SimpleThreadPool Task) CondVar where
  alive s := !s.crashed
  act := Thread.act call
  waits := Thread.waits
  woken := Thread.woken
  notifiesOne := Thread.notifiesOne
  notifiesAll := Thread.notifiesAll

/-- The clients at the start of their programs, and no worker. -/
def start (numThreads maxQueueSize : Nat) (clients : Multiset K) :
    Config (Thread Task K) (SimpleThreadPool Task) :=
  ⟨clients.map Thread.outside, new Task numThreads maxQueueSize⟩

/-- A client that adds a task and joins the pool. -/
def oneTask : Fin 3 → Call Nat (Fin 3)
  | 0 => .addTask 7 1
  | 1 => .joinAll 2
  | 2 => .done

/-- A pool with one worker, at the end of it. -/
def oneTaskDone : SimpleThreadPool Nat :=
  ⟨1, 1, [], [0], false, true, false, 1, [0], [7], [7], [7]⟩

theorem reaches_joining : (system oneTask).Reaches (start 1 1 {0})
    ⟨{.joining 1 2, .returned 0}, oneTaskDone⟩ := by
  have hruns : (system oneTask).runs [0, 0, 0, 1, 1, 0, 1, 0, 0, 1, 0, 0, 1, 1]
      [.outside 0] (new Nat 1 1) = some ([.joining 1 2, .returned 0], oneTaskDone) := rfl
  exact reaches_of_runs hruns

theorem reaches_oneTaskDone : (system oneTask).Reaches (start 1 1 {0})
    ⟨{.outside 2, .returned 0}, oneTaskDone⟩ := by
  have hruns : (system oneTask).runs [0, 0, 0, 1, 1, 0, 1, 0, 0, 1, 0, 0, 1, 1, 0]
      [.outside 0] (new Nat 1 1) = some ([.outside 2, .returned 0], oneTaskDone) := rfl
  exact reaches_of_runs hruns

/-- Two clients that both find no worker create one each, in a pool for one. -/
theorem reaches_race : (system oneTask).Reaches (start 1 1 {0, 0})
    ⟨{.registering 1 7 1, .working 1, .registering 0 7 1, .working 0},
      { new Nat 1 1 with created := 2 }⟩ := by
  have hruns : (system oneTask).runs [0, 1, 0, 1, 0, 2] [.outside 0, .outside 0] (new Nat 1 1) =
      some ([.registering 1 7 1, .working 1, .registering 0 7 1, .working 0],
        { new Nat 1 1 with created := 2 }) := rfl
  exact reaches_of_runs hruns

variable {call : K → Call Task K}

/-- Notifications and wake-ups, which do not touch the shared state. -/
inductive Thread.Silent : Thread Task K → Thread Task K → Prop
  | retry {f : Task} {k : K} : Silent (waitingFull f k) (retrying f k)
  | work {id : Nat} : Silent (asleep id) (working id)
  | run {id : Nat} {f : Task} : Silent (took id f) (running id f)
  | notify {k : K} : Silent (notifyingFull k) (notifyingEmpty k)
  | leave {k : K} : Silent (notifyingEmpty k) (outside k)
  | join {k : K} : Silent (closing k) (joining 0 k)

theorem silent_woken {w : Thread Task K} {c : CondVar} (h : (system call).waits w = some c) :
    Thread.Silent w ((system call).woken w) := by
  cases w with
  | waitingFull => exact .retry
  | asleep => exact .work
  | _ => cases h

theorem silent_one {l l' : Thread Task K} {c : CondVar}
    (h : (system call).notifiesOne l = some (c, l')) : Thread.Silent l l' := by
  cases l with
  | took =>
    cases h
    exact .run
  | _ => cases h

theorem silent_all {l l' : Thread Task K} {c : CondVar}
    (h : (system call).notifiesAll l = some (c, l')) : Thread.Silent l l' := by
  cases l with
  | notifyingEmpty =>
    cases h
    exact .leave
  | notifyingFull =>
    cases h
    exact .notify
  | closing =>
    cases h
    exact .join
  | _ => cases h

/-- What every section keeps about the shared state and what the threads hold. -/
theorem tally {M : Type} [AddCommMonoid M] {μ : Thread Task K → M} {numThreads maxQueueSize : Nat}
    {clients : Multiset K} {cfg : Config (Thread Task K) (SimpleThreadPool Task)}
    (hrun : (system call).Reaches (start numThreads maxQueueSize clients) cfg)
    (P : SimpleThreadPool Task → M → Prop)
    (hstart : P (new Task numThreads maxQueueSize) (clients.map fun k => μ (.outside k)).sum)
    (hact : ∀ {cfg l l' s' created},
      (system call).Reaches (start numThreads maxQueueSize clients) cfg → l ∈ cfg.threads →
      Thread.Acts call l cfg.shared l' s' created → ∀ rest, P cfg.shared (μ l + rest) →
      P s' (μ l' + (((created : Multiset (Thread Task K)).map μ).sum + rest)))
    (hsilent : ∀ {l l'}, Thread.Silent l l' → μ l' = μ l) :
    P cfg.shared (cfg.threads.map μ).sum := by
  apply hrun.balance P
  · simpa only [start, Multiset.map_map, Function.comp_def] using hstart
  · intro cfg l l' s' created hreach hl hsection
    exact hact hreach hl (Thread.acts_of_act hsection)
  · exact fun h => hsilent (silent_woken h)
  · exact fun h => hsilent (silent_one h)
  · exact fun h => hsilent (silent_all h)

/-! ## The tasks -/

/-- What every section keeps in the shared state: tasks are taken in the order in which they were
added, and workers return only from a pool that was stopped or joined. -/
structure Sound (numThreads maxQueueSize : Nat) (s : SimpleThreadPool Task) : Prop where
  threadLimit : s.numThreads = numThreads
  queueLimit : s.maxQueueSize = maxQueueSize
  fifo : s.added = s.started ++ s.queue
  bounded : s.queue.length ≤ maxQueueSize
  ended : s.returned ≠ [] → s.stopped = true ∨ s.joined = true

theorem Sound.enqueues {numThreads maxQueueSize : Nat} {s s' : SimpleThreadPool Task} {f : Task}
    {k : K} {l : Thread Task K} (h : Thread.Enqueues f k s l s')
    (hs : s.Sound numThreads maxQueueSize) : s'.Sound numThreads maxQueueSize := by
  cases h with
  | giveUp | wait => exact hs
  | push hfree =>
    obtain ⟨hnum, hmax, hfifo, hbounded, hended⟩ := hs
    refine ⟨hnum, hmax, ?_, ?_, hended⟩
    · simp only [hfifo, List.append_assoc]
    · simp only [List.length_append, List.length_singleton]
      omega

theorem Sound.works {numThreads maxQueueSize : Nat} {s s' : SimpleThreadPool Task} {id : Nat}
    {l : Thread Task K} (h : Thread.Works id s l s')
    (hs : s.Sound numThreads maxQueueSize) : s'.Sound numThreads maxQueueSize := by
  obtain ⟨hnum, hmax, hfifo, hbounded, hended⟩ := hs
  cases h with
  | giveUp hend => exact ⟨hnum, hmax, hfifo, hbounded, fun _ => hend.imp_right And.right⟩
  | wait => exact ⟨hnum, hmax, hfifo, hbounded, hended⟩
  | take hqueue =>
    refine ⟨hnum, hmax, ?_, ?_, hended⟩
    · simp only [hfifo, hqueue, List.append_assoc, List.singleton_append]
    · rw [hqueue, List.length_cons] at hbounded
      exact Nat.le_of_succ_le hbounded

theorem Sound.acts {numThreads maxQueueSize : Nat} {l l' : Thread Task K}
    {s s' : SimpleThreadPool Task} {created : List (Thread Task K)}
    (h : Thread.Acts call l s l' s' created) (hs : s.Sound numThreads maxQueueSize) :
    s'.Sound numThreads maxQueueSize := by
  cases h with
  | callAddTask | callStopAll | callJoinAll | grow | joinedBefore | join | joinedAll => exact hs
  | addCrash | registerCrash | create | finish =>
    exact ⟨hs.threadLimit, hs.queueLimit, hs.fifo, hs.bounded, hs.ended⟩
  | add _ _ h | retry h => exact hs.enqueues h
  | register _ h =>
    exact Sound.enqueues h ⟨hs.threadLimit, hs.queueLimit, hs.fifo, hs.bounded, hs.ended⟩
  | stop => exact ⟨hs.threadLimit, hs.queueLimit, hs.fifo, hs.bounded, fun _ => .inl rfl⟩
  | close => exact ⟨hs.threadLimit, hs.queueLimit, hs.fifo, hs.bounded, fun _ => .inr rfl⟩
  | work h => exact hs.works h

theorem sound_of_reaches {numThreads maxQueueSize : Nat} {clients : Multiset K}
    {cfg : Config (Thread Task K) (SimpleThreadPool Task)}
    (hrun : (system call).Reaches (start numThreads maxQueueSize clients) cfg) :
    cfg.shared.Sound numThreads maxQueueSize := by
  apply hrun.shared (fun s => s.Sound numThreads maxQueueSize)
  · exact ⟨rfl, rfl, rfl, Nat.zero_le _, fun h => absurd rfl h⟩
  · intro cfg l l' s' created _ _ hact hs
    exact hs.acts (Thread.acts_of_act hact)

/-- The task that a worker took and has not finished. -/
def Thread.held : Thread Task K → Multiset Task
  | took _ f | running _ f => {f}
  | _ => 0

theorem Thread.held_enqueues {f : Task} {k : K} {s s' : SimpleThreadPool Task}
    {l : Thread Task K} (h : Thread.Enqueues f k s l s') :
    s'.started = s.started ∧ s'.finished = s.finished ∧ l.held = 0 := by
  cases h <;> exact ⟨rfl, rfl, rfl⟩

/-- A task that was taken is finished, or a worker holds it. -/
theorem started_of_reaches {numThreads maxQueueSize : Nat} {clients : Multiset K}
    {cfg : Config (Thread Task K) (SimpleThreadPool Task)}
    (hrun : (system call).Reaches (start numThreads maxQueueSize clients) cfg) :
    (cfg.shared.started : Multiset Task) =
      cfg.shared.finished + (cfg.threads.map Thread.held).sum := by
  apply tally hrun (fun s m => (s.started : Multiset Task) = s.finished + m)
  · simp [new, Thread.held]
  · intro cfg l l' s' created _ _ hact rest ha
    cases hact with
    | callAddTask | callStopAll | callJoinAll | addCrash | grow | registerCrash | stop
    | joinedBefore | close | join | joinedAll | create => simpa [Thread.held] using ha
    | add _ _ h | register _ h | retry h =>
      obtain ⟨hstarted, hfinished, hheld⟩ := Thread.held_enqueues h
      rw [hstarted, hfinished, hheld]
      simpa [Thread.held] using ha
    | work h =>
      cases h with
      | giveUp | wait => simpa [Thread.held] using ha
      | take hqueue =>
        simp only [Thread.held, zero_add] at ha
        simp [coe_snoc, Thread.held, ha, add_assoc, add_comm rest]
    | finish =>
      simpa [coe_snoc, Thread.held, add_assoc] using ha
  · intro l l' h
    cases h <;> rfl

/-! ## The workers -/

/-- The worker that a thread is. -/
def Thread.ident : Thread Task K → Multiset Nat
  | working id | asleep id | took id _ | running id _ | returned id => {id}
  | _ => 0

theorem idents_of_reaches {numThreads maxQueueSize : Nat} {clients : Multiset K}
    {cfg : Config (Thread Task K) (SimpleThreadPool Task)}
    (hrun : (system call).Reaches (start numThreads maxQueueSize clients) cfg) :
    (cfg.threads.map Thread.ident).sum = Multiset.range cfg.shared.created := by
  apply tally hrun (fun s m => m = Multiset.range s.created)
  · simp [new, Thread.ident]
  · intro cfg l l' s' created _ _ hact rest ha
    cases hact with
    | callAddTask | callStopAll | callJoinAll | addCrash | grow | registerCrash | stop
    | joinedBefore | close | join | joinedAll | finish => simpa [Thread.ident] using ha
    | create =>
      simp only [Thread.ident, zero_add] at ha
      simp [Thread.ident, ha, Multiset.range_succ]
    | add _ _ h | register _ h | retry h => cases h <;> simpa [Thread.ident] using ha
    | work h => cases h <;> simpa [Thread.ident] using ha
  · intro l l' h
    cases h <;> rfl

/-- A worker that its client has not put into `threads_` yet. -/
def Thread.pending : Thread Task K → Multiset Nat
  | registering id _ _ => {id}
  | _ => 0

theorem pending_of_reaches {numThreads maxQueueSize : Nat} {clients : Multiset K}
    {cfg : Config (Thread Task K) (SimpleThreadPool Task)}
    (hrun : (system call).Reaches (start numThreads maxQueueSize clients) cfg) :
    (cfg.shared.threads : Multiset Nat) + (cfg.threads.map Thread.pending).sum =
      Multiset.range cfg.shared.created := by
  apply tally hrun (fun s m => (s.threads : Multiset Nat) + m = Multiset.range s.created)
  · simp [new, Thread.pending]
  · intro cfg l l' s' created _ _ hact rest ha
    cases hact with
    | callAddTask | callStopAll | callJoinAll | addCrash | grow | registerCrash | stop
    | joinedBefore | close | join | joinedAll | finish => simpa [Thread.pending] using ha
    | create =>
      simp only [Thread.pending, zero_add] at ha
      simp [Thread.pending, ← ha, Multiset.range_succ]
    | add _ _ h | retry h => cases h <;> simpa [Thread.pending] using ha
    | register _ h => cases h <;> simpa [Thread.pending, coe_snoc, add_assoc] using ha
    | work h => cases h <;> simpa [Thread.pending] using ha
  · intro l l' h
    cases h <;> rfl

/-- A worker at its end. -/
def Thread.ended : Thread Task K → Multiset Nat
  | returned id => {id}
  | _ => 0

theorem ended_of_reaches {numThreads maxQueueSize : Nat} {clients : Multiset K}
    {cfg : Config (Thread Task K) (SimpleThreadPool Task)}
    (hrun : (system call).Reaches (start numThreads maxQueueSize clients) cfg) :
    (cfg.threads.map Thread.ended).sum = cfg.shared.returned := by
  apply tally hrun (fun s m => m = (s.returned : Multiset Nat))
  · simp [new, Thread.ended]
  · intro cfg l l' s' created _ _ hact rest ha
    cases hact with
    | callAddTask | callStopAll | callJoinAll | addCrash | grow | registerCrash | stop
    | joinedBefore | close | join | joinedAll | finish | create => simpa [Thread.ended] using ha
    | add _ _ h | register _ h | retry h => cases h <;> simpa [Thread.ended] using ha
    | work h => cases h <;> simpa [Thread.ended, coe_snoc, add_comm] using ha
  · intro l l' h
    cases h <;> rfl

/-- Clients about to create a worker, clients with one that is not in `threads_`, and the others. -/
def Thread.crew : Thread Task K → Nat × Nat × Nat
  | creating _ _ => (1, 0, 0)
  | registering _ _ _ => (0, 1, 0)
  | outside _ | adding _ _ | waitingFull _ _ | retrying _ _ | notifyingEmpty _ | stopping _
  | notifyingFull _ | joiningAll _ | closing _ | joining _ _ => (0, 0, 1)
  | working _ | asleep _ | took _ _ | running _ _ | returned _ => 0

theorem Thread.crew_enqueues {f : Task} {k : K} {s s' : SimpleThreadPool Task}
    {l : Thread Task K} (h : Thread.Enqueues f k s l s') :
    l.crew = (0, 0, 1) ∧ s'.numThreads = s.numThreads ∧ s'.threads = s.threads ∧
      s'.created = s.created := by
  cases h <;> exact ⟨rfl, rfl, rfl, rfl⟩

/-- `num_threads_` is checked before a worker is created, but counts only those that are in
`threads_`: each further client that adds at the same time may create one more. -/
theorem created_le (call : K → Call Task K) (numThreads maxQueueSize : Nat) (clients : Multiset K)
    (cfg : Config (Thread Task K) (SimpleThreadPool Task))
    (hrun : (system call).Reaches (start numThreads maxQueueSize clients) cfg) :
    cfg.shared.created ≤ numThreads + (clients.card - 1) := by
  have hcrew := tally hrun (μ := Thread.crew) (fun s m =>
    s.numThreads = numThreads ∧ m.1 + m.2.1 + m.2.2 = clients.card ∧
      s.threads.length + m.2.1 = s.created ∧ s.created + m.1 ≤ numThreads + (clients.card - 1))
    ?_ ?_ ?_
  · omega
  · simp [new, Thread.crew]
  · intro cfg l l' s' created _ _ hact rest ha
    cases hact with
    | callAddTask | callStopAll | callJoinAll | addCrash | registerCrash | stop
    | joinedBefore | close | join | joinedAll | finish => simpa [Thread.crew] using ha
    | grow _ h =>
      simp [Thread.crew] at ha ⊢
      omega
    | create =>
      simp [Thread.crew] at ha ⊢
      omega
    | add _ _ h | retry h =>
      obtain ⟨hcrew, hnum, hthreads, hcreated⟩ := Thread.crew_enqueues h
      rw [hcrew, hnum, hthreads, hcreated]
      simpa [Thread.crew] using ha
    | register _ h =>
      obtain ⟨hcrew, hnum, hthreads, hcreated⟩ := Thread.crew_enqueues h
      rw [hcrew, hnum, hthreads, hcreated]
      simp [Thread.crew] at ha ⊢
      omega
    | work h => cases h <;> simpa [Thread.crew] using ha
  · intro l l' h
    cases h <;> rfl

theorem created_le_race : 2 ≤ 1 + (({0, 0} : Multiset (Fin 3)).card - 1) :=
  created_le oneTask 1 1 {0, 0} _ reaches_race

/-- However the threads interleave: the tasks are taken in the order in which they were added, each
once, a task that was taken is finished or with a worker, and the queue stays in its bound. -/
theorem tasks_once (call : K → Call Task K) (numThreads maxQueueSize : Nat) (clients : Multiset K)
    (cfg : Config (Thread Task K) (SimpleThreadPool Task))
    (hrun : (system call).Reaches (start numThreads maxQueueSize clients) cfg) :
    cfg.shared.added = cfg.shared.started ++ cfg.shared.queue ∧
      (cfg.shared.started : Multiset Task) =
        cfg.shared.finished + (cfg.threads.map Thread.held).sum ∧
      cfg.shared.queue.length ≤ maxQueueSize :=
  ⟨(sound_of_reaches hrun).fifo, started_of_reaches hrun, (sound_of_reaches hrun).bounded⟩

theorem tasks_once_oneTask : [7] = [7] ++ ([] : List Nat) ∧
    (([7] : List Nat) : Multiset Nat) = (([7] : List Nat) : Multiset Nat) + 0 ∧
      ([] : List Nat).length ≤ 1 :=
  tasks_once oneTask 1 1 {0} _ reaches_joining

end SimpleThreadPool
end InferUI
