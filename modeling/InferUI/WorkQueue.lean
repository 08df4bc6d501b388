import InferUI.Monitor
import Mathlib.Algebra.Order.Ring.Nat

/-!
# The producer-consumer queue

`ProducerConsumerQueue` of `util/thread/work_queue.h`, with any number of threads that push and pop
as their own programs say. `Push` and `Emplace` differ only in how the element is built, `PopSwap`
and `PopCopy` in how it is handed over.
-/

namespace InferUI
open Monitor System

/-- The queue, with the elements that went in and came out so far. -/
structure ProducerConsumerQueue (El : Type) where
  maxSize : Nat
  queue : List El
  pushed : List El
  popped : List El

namespace ProducerConsumerQueue
variable {El K : Type}

def empty (El : Type) (maxSize : Nat) : ProducerConsumerQueue El := ⟨maxSize, [], [], []⟩

def put (s : ProducerConsumerQueue El) (el : El) : ProducerConsumerQueue El :=
  { s with queue := s.queue ++ [el], pushed := s.pushed ++ [el] }

def take (s : ProducerConsumerQueue El) (el : El) (rest : List El) : ProducerConsumerQueue El :=
  { s with queue := rest, popped := s.popped ++ [el] }

/-- What a program does next, and how it goes on from there. -/
inductive Call (El K : Type)
  | done
  | push (el : El) (k : K)
  | pop (k : El → K)

inductive CondVar
  | empty
  | full
  deriving DecidableEq

/-- Where a thread is. -/
inductive Thread (El K : Type)
  | outside (k : K)
  /-- At the condition of the loop in `Push`, with the lock still to take. -/
  | pushing (el : El) (k : K)
  | waitingFull (el : El) (k : K)
  /-- Behind the critical section of `Push`. -/
  | pushed (k : K)
  | popping (k : El → K)
  | waitingEmpty (k : El → K)
  | popped (k : K)

namespace Thread

/-- A call, or one turn of the loop that ends with the push, the pop or in the wait. -/
def act (call : K → Call El K) :
    Thread El K → ProducerConsumerQueue El → Option (Thread El K × ProducerConsumerQueue El)
  | outside k, s =>
    match call k with
    | .done => none
    | .push el k => some (pushing el k, s)
    | .pop k => some (popping k, s)
  | pushing el k, s =>
    if s.maxSize ≤ s.queue.length then some (waitingFull el k, s)
    else some (pushed k, s.put el)
  | popping k, s =>
    match s.queue with
    | [] => some (waitingEmpty k, s)
    | el :: rest => some (popped (k el), s.take el rest)
  | _, _ => none

def waits : Thread El K → Option CondVar
  | waitingFull _ _ => some .full
  | waitingEmpty _ => some .empty
  | _ => none

def woken : Thread El K → Thread El K
  | waitingFull el k => pushing el k
  | waitingEmpty k => popping k
  | l => l

def notifiesOne : Thread El K → Option (CondVar × Thread El K)
  | pushed k => some (.empty, outside k)
  | popped k => some (.full, outside k)
  | _ => none

/-- The ways through `act`. -/
inductive Acts (call : K → Call El K) : Thread El K → ProducerConsumerQueue El → Thread El K →
    ProducerConsumerQueue El → Prop
  | callPush {k k' : K} {el : El} {s} (h : call k = .push el k') :
      Acts call (outside k) s (pushing el k') s
  | callPop {k : K} {k' : El → K} {s} (h : call k = .pop k') :
      Acts call (outside k) s (popping k') s
  | waitFull {el : El} {k : K} {s} (h : s.maxSize ≤ s.queue.length) :
      Acts call (pushing el k) s (waitingFull el k) s
  | push {el : El} {k : K} {s} (h : s.queue.length < s.maxSize) :
      Acts call (pushing el k) s (pushed k) (s.put el)
  | waitEmpty {k : El → K} {s} (h : s.queue = []) :
      Acts call (popping k) s (waitingEmpty k) s
  | pop {el : El} {rest : List El} {k : El → K} {s} (h : s.queue = el :: rest) :
      Acts call (popping k) s (popped (k el)) (s.take el rest)

theorem acts_of_act {call : K → Call El K} {l l' : Thread El K} {s s' : ProducerConsumerQueue El}
    (h : l.act call s = some (l', s')) : Acts call l s l' s' := by
  cases l with
  | outside k =>
    simp only [act] at h
    split at h
    · cases h
    · cases h
      exact .callPush ‹_›
    · cases h
      exact .callPop ‹_›
  | pushing el k =>
    simp only [act] at h
    split at h
    · cases h
      exact .waitFull ‹_›
    · cases h
      exact .push (by omega)
  | popping k =>
    simp only [act] at h
    split at h
    · cases h
      exact .waitEmpty ‹_›
    · cases h
      exact .pop ‹_›
  | waitingFull | pushed | waitingEmpty | popped => cases h

end Thread

/-- All threads that use the queue; what they do elsewhere is in their programs. -/
def system (call : K → Call El K) :
    System (Thread El K) (ProducerConsumerQueue El) CondVar where
  alive _ := true
  act l s := (l.act call s).map fun r => (r.1, r.2, [])
  waits := Thread.waits
  woken := Thread.woken
  notifiesOne := Thread.notifiesOne
  notifiesAll _ := none

theorem acts_of_system {call : K → Call El K} {l l' : Thread El K}
    {s s' : ProducerConsumerQueue El} {created : List (Thread El K)}
    (h : (system call).act l s = some (l', s', created)) :
    Thread.Acts call l s l' s' ∧ created = [] := by
  obtain ⟨⟨l₁, s₁⟩, hact, heq⟩ := Option.map_eq_some_iff.mp h
  cases heq
  exact ⟨Thread.acts_of_act hact, rfl⟩

/-- The queue as its callers see it: a push or a pop is one step, and waits until it is possible. -/
def atomic (call : K → Call El K) : System (Call El K) (ProducerConsumerQueue El) CondVar where
  alive _ := true
  act
  | .done, _ => none
  | .push el k, s => if s.maxSize ≤ s.queue.length then none else some (call k, s.put el, [])
  | .pop k, s =>
    match s.queue with
    | [] => none
    | el :: rest => some (call (k el), s.take el rest, [])
  waits _ := none
  woken l := l
  notifiesOne _ := none
  notifiesAll _ := none

/-- The call that a thread is in, or its next one. -/
def Thread.call (call : K → Call El K) : Thread El K → Call El K
  | outside k | pushed k | popped k => call k
  | pushing el k | waitingFull el k => .push el k
  | popping k | waitingEmpty k => .pop k

theorem simulation (call : K → Call El K) :
    Simulation (system call) (atomic call) (Thread.call call) id where
  alive h := h
  act h := by
    obtain ⟨hacts, rfl⟩ := acts_of_system h
    cases hacts with
    | callPush hcall | callPop hcall =>
      right
      exact ⟨hcall.symm, rfl, rfl⟩
    | waitFull | waitEmpty => exact .inr ⟨rfl, rfl, rfl⟩
    | push hlt =>
      left
      simp only [atomic, Thread.call, id, List.map_nil, if_neg (Nat.not_le.mpr hlt)]
    | pop hq =>
      left
      simp only [atomic, Thread.call, id, List.map_nil, hq]
  woken {w c} h := by
    cases w <;> rfl
  one {l c l'} h := by
    cases l <;> cases h <;> rfl
  all h := by cases h

/-! ## Wake-ups -/

/-- What there is for the threads that wait: elements, or free places. -/
def available (s : ProducerConsumerQueue El) : CondVar → Nat
  | .empty => s.queue.length
  | .full => s.maxSize - s.queue.length

/-- The variable on which a thread may have to wait now, or which it is about to notify. -/
def Thread.concerns : Thread El K → Option CondVar
  | popping _ | pushed _ => some .empty
  | pushing _ _ | popped _ => some .full
  | _ => none

def Thread.weight (c : CondVar) (l : Thread El K) : Nat := if l.concerns = some c then 1 else 0

theorem Thread.Acts.available {call : K → Call El K} {l l' : Thread El K}
    {s s' : ProducerConsumerQueue El} (h : Thread.Acts call l s l' s') (c : CondVar)
    (hawake : l'.waits ≠ some c) :
    s'.available c + l.weight c ≤ s.available c + l'.weight c := by
  cases h with
  | callPush | callPop => exact Nat.add_le_add_left (Nat.zero_le _) _
  | waitFull | waitEmpty =>
    cases c with
    | empty => first | exact absurd rfl hawake | exact Nat.le_refl _
    | full => first | exact absurd rfl hawake | exact Nat.le_refl _
  | push hlt =>
    cases c with
    | empty => simp [ProducerConsumerQueue.available, put, Thread.weight, Thread.concerns]
    | full =>
      simp [ProducerConsumerQueue.available, put, Thread.weight, Thread.concerns]
      omega
  | pop hq =>
    cases c with
    | empty => simp [ProducerConsumerQueue.available, take, Thread.weight, Thread.concerns, hq]
    | full =>
      simp [ProducerConsumerQueue.available, take, Thread.weight, Thread.concerns, hq]
      omega

def signal (c : CondVar) : Signal (Thread El K) (ProducerConsumerQueue El) where
  calm _ := True
  demand s := s.available c
  weight := Thread.weight c
  owes _ := False

theorem signals (call : K → Call El K) (c : CondVar) : Signals (system call) c (signal c) where
  sleeps h hwaits := by
    obtain ⟨hacts, rfl⟩ := acts_of_system h
    cases hacts with
    | waitFull hle =>
      cases hwaits
      exact ⟨trivial, Nat.sub_eq_zero_of_le hle⟩
    | waitEmpty hq =>
      cases hwaits
      exact ⟨trivial, by simp only [signal, available, hq, List.length_nil]⟩
    | callPush | callPop | push | pop => cases hwaits
  created h w hw := by
    obtain ⟨-, rfl⟩ := acts_of_system h
    cases hw
  pays h hawake _ := .inl ⟨trivial, (acts_of_system h).1.available c hawake⟩
  acting _ := not_false
  waiting {w c'} h := by
    cases w with
    | waitingFull | waitingEmpty =>
      cases h
      refine ⟨not_false, rfl, Nat.zero_le _, ?_⟩
      rintro rfl
      exact Nat.le_refl 1
    | outside | pushing | pushed | popping | popped => cases h
  one {l c' l'} h := by
    cases l with
    | pushed | popped =>
      cases h
      cases c <;> exact ⟨not_false, rfl, Nat.le_refl _⟩
    | outside | pushing | waitingFull | popping | waitingEmpty => cases h
  all h := by cases h
  due h := h.elim

/-- A thread that cannot move is at its end or asleep. -/
theorem Thread.concerns_of_stuck {call : K → Call El K} {l : Thread El K}
    {s : ProducerConsumerQueue El} (hact : l.act call s = none) (hone : l.notifiesOne = none) :
    l.concerns = none := by
  cases l with
  | outside | waitingFull | waitingEmpty => rfl
  | pushing =>
    rw [act] at hact
    split at hact <;> cases hact
  | popping =>
    rw [act] at hact
    split at hact <;> cases hact
  | pushed | popped => cases hone

/-! ## Whole runs -/

/-- Threads at the start of their programs, and an empty queue. -/
def start (maxSize : Nat) (programs : Multiset K) :
    Config (Thread El K) (ProducerConsumerQueue El) :=
  ⟨programs.map Thread.outside, empty El maxSize⟩

theorem not_waits_start {call : K → Call El K} {maxSize : Nat} {programs : Multiset K}
    {w : Thread El K} {c : CondVar} (hw : w ∈ (start maxSize programs).threads) :
    (system call).waits w ≠ some c := by
  obtain ⟨k, -, rfl⟩ := Multiset.mem_map.mp hw
  exact nofun

/-- Where no thread can move, the atomic queue cannot either. -/
theorem atomic_stuck {call : K → Call El K} {maxSize : Nat} {programs : Multiset K}
    {cfg : Config (Thread El K) (ProducerConsumerQueue El)}
    (hrun : (system call).Reaches (start maxSize programs) cfg)
    (hquiet : (system call).Quiet cfg) {l : Thread El K} (hl : l ∈ cfg.threads) :
    (atomic call).act (l.call call) cfg.shared = none := by
  have hstuck : ∀ m ∈ cfg.threads, m.act call cfg.shared = none ∧ m.notifiesOne = none :=
    fun m hm => ⟨Option.map_eq_none_iff.mp (hquiet.not_act hm), hquiet.not_notifiesOne hm⟩
  have hcovered : ∀ c, (system call).waits l = some c → cfg.shared.available c = 0 := by
    intro c hwaits
    have hstart : Covered (system call) c (signal c) (start maxSize programs) :=
      fun ⟨w, hw, hwaits⟩ => absurd hwaits (not_waits_start hw)
    refine ((signals call c).quiet ((signals call c).reaches hrun hstart) hquiet ?_ hl hwaits).2
    intro m hm
    simp only [signal]
    rw [Thread.weight, Thread.concerns_of_stuck (hstuck m hm).1 (hstuck m hm).2, if_neg nofun]
  obtain ⟨hact, hone⟩ := hstuck l hl
  cases l with
  | outside k =>
    rw [Thread.act] at hact
    split at hact
    · simp only [Thread.call, ‹call k = .done›, atomic]
    · cases hact
    · cases hact
  | waitingFull el k => exact if_pos (Nat.le_of_sub_eq_zero (hcovered .full rfl))
  | waitingEmpty k =>
    have hempty := List.eq_nil_of_length_eq_zero (hcovered .empty rfl)
    simp only [atomic, Thread.call, hempty]
  | pushing | popping | pushed | popped => cases Thread.concerns_of_stuck hact hone

/-- Every run of the queue with its lock and its condition variables is one of the atomic queue,
with the same elements pushed and popped; and the threads get stuck only where the atomic queue
leaves them nothing to do: no wake-up is lost. -/
theorem refines_atomic (call : K → Call El K) (maxSize : Nat) (programs : Multiset K)
    (cfg : Config (Thread El K) (ProducerConsumerQueue El))
    (hrun : (system call).Reaches (start maxSize programs) cfg) :
    (atomic call).Reaches ⟨programs.map call, empty El maxSize⟩
        (cfg.map (Thread.call call) id) ∧
      ((system call).Quiet cfg → (atomic call).Quiet (cfg.map (Thread.call call) id)) := by
  refine ⟨?_, fun hquiet => quiet_of_stuck fun c hc => ?_⟩
  · have hreaches := (simulation call).reaches hrun
    simp only [start, Config.map, Multiset.map_map, id] at hreaches
    exact hreaches
  · obtain ⟨l, hl, rfl⟩ := Multiset.mem_map.mp hc
    exact ⟨atomic_stuck hrun hquiet hl, rfl, rfl⟩

/-- What went in came out in the same order or is still queued, within the bound. -/
structure InOrder (maxSize : Nat) (s : ProducerConsumerQueue El) : Prop where
  limit : s.maxSize = maxSize
  fifo : s.pushed = s.popped ++ s.queue
  bounded : s.queue.length ≤ maxSize

theorem InOrder.acts {call : K → Call El K} {maxSize : Nat} {l l' : Thread El K}
    {s s' : ProducerConsumerQueue El} (h : Thread.Acts call l s l' s')
    (hs : s.InOrder maxSize) : s'.InOrder maxSize := by
  obtain ⟨hmax, hfifo, hbounded⟩ := hs
  cases h with
  | callPush | callPop | waitFull | waitEmpty => exact ⟨hmax, hfifo, hbounded⟩
  | push hlt =>
    refine ⟨hmax, ?_, ?_⟩
    · simp only [put, hfifo, List.append_assoc]
    · simp only [put, List.length_append, List.length_singleton]
      omega
  | pop hq =>
    refine ⟨hmax, ?_, ?_⟩
    · simp only [take, hfifo, hq, List.append_assoc, List.singleton_append]
    · rw [hq, List.length_cons] at hbounded
      exact Nat.le_of_succ_le hbounded

/-- What comes out went in in that order, and what is between is in the queue, within its bound. -/
theorem in_order (call : K → Call El K) (maxSize : Nat) (programs : Multiset K)
    (cfg : Config (Thread El K) (ProducerConsumerQueue El))
    (hrun : (system call).Reaches (start maxSize programs) cfg) :
    cfg.shared.pushed = cfg.shared.popped ++ cfg.shared.queue ∧
      cfg.shared.queue.length ≤ maxSize := by
  have horder : cfg.shared.InOrder maxSize := by
    apply hrun.shared (fun s => s.InOrder maxSize) ⟨rfl, rfl, Nat.zero_le _⟩
    intro cfg l l' s' created _ _ hact hs
    exact hs.acts (acts_of_system hact).1
  exact ⟨horder.fifo, horder.bounded⟩

/-- A producer and a consumer, and the end of both. -/
inductive Script
  | producer | consumer | ended
  deriving DecidableEq

def twoScripts : Script → Call Nat Script
  | .producer => .push 5 .ended
  | .consumer => .pop fun _ => .ended
  | .ended => .done

/-- The consumer comes first and has to be woken. -/
theorem reaches_twoScripts : (system twoScripts).Reaches (start 1 {.producer, .consumer})
    ⟨{.outside .ended, .outside .ended}, ((empty Nat 1).put 5).take 5 []⟩ := by
  have hruns : (system twoScripts).runs [1, 0, 1, 0, 0, 1, 0]
      [.outside .producer, .outside .consumer] (empty Nat 1) =
        some ([.outside .ended, .outside .ended], ((empty Nat 1).put 5).take 5 []) := rfl
  exact reaches_of_runs hruns

theorem refines_atomic_twoScripts :
    (atomic twoScripts).Reaches ⟨{.push 5 .ended, .pop fun _ => .ended}, empty Nat 1⟩
        ⟨{.done, .done}, ((empty Nat 1).put 5).take 5 []⟩ ∧
      ((system twoScripts).Quiet
          ⟨{.outside .ended, .outside .ended}, ((empty Nat 1).put 5).take 5 []⟩ →
        (atomic twoScripts).Quiet ⟨{.done, .done}, ((empty Nat 1).put 5).take 5 []⟩) :=
  refines_atomic twoScripts 1 {Script.producer, Script.consumer} _ reaches_twoScripts

theorem in_order_twoScripts : [5] = [5] ++ ([] : List Nat) ∧ ([] : List Nat).length ≤ 1 :=
  in_order twoScripts 1 {Script.producer, Script.consumer} _ reaches_twoScripts

end ProducerConsumerQueue
end InferUI
