import InferUI.ThreadPool

/-!
# Runs of the thread pool

No wake-up is lost, so the pool stops only when there is nothing to do; and `JoinAll` comes back
only when all tasks are finished. Both need that no `AddTask` is between its check and its push
when the pool is joined.
-/

namespace InferUI
open Monitor System

namespace SimpleThreadPool
variable {Task K : Type} {call : K → Call Task K} {numThreads maxQueueSize : Nat}
  {clients : Multiset K} {cfg : Config (Thread Task K) (SimpleThreadPool Task)}

/-! ## Wake-ups -/

/-- Workers sleep while the pool is open and its queue is empty. -/
def emptySignal : Signal (Thread Task K) (SimpleThreadPool Task) where
  calm s := s.joined = false ∧ s.stopped = false
  demand s := s.queue.length
  weight
    | .working _ => 1
    | _ => 0
  owes
    | .notifyingEmpty _ | .notifyingFull _ | .closing _ => True
    | _ => False

theorem signals_empty (call : K → Call Task K) : Signals (system call) .empty emptySignal where
  sleeps {l s l' s' created} hact hwaits := by
    cases Thread.acts_of_act hact with
    | work h =>
      cases h with
      | wait hqueue hjoined hstopped =>
        exact ⟨⟨hjoined, hstopped⟩, by simp only [emptySignal, hqueue, List.length_nil]⟩
      | giveUp | take => cases hwaits
    | add _ _ h | register _ h | retry h => cases h <;> cases hwaits
    | _ => cases hwaits
  created {l s l' s' created} hact w hw := by
    cases Thread.acts_of_act hact with
    | create =>
      rw [List.mem_singleton] at hw
      subst hw
      exact nofun
    | _ => cases hw
  pays {l s l' s' created} hact hawake hcalm := by
    cases Thread.acts_of_act hact with
    | add _ _ h | register _ h | retry h =>
      cases h with
      | giveUp | wait => exact .inl ⟨hcalm, Nat.le_refl _⟩
      | push => exact .inr trivial
    | work h =>
      cases h with
      | giveUp hend =>
        obtain ⟨hjoined, hstopped⟩ := hcalm
        simp [hjoined, hstopped] at hend
      | wait => exact absurd rfl hawake
      | take hqueue =>
        left
        simp only [emptySignal, hqueue, List.length_cons]
        exact ⟨hcalm, Nat.le_refl _⟩
    | stop | close => exact .inr trivial
    | finish => exact .inl ⟨hcalm, Nat.le_succ _⟩
    | _ => exact .inl ⟨hcalm, Nat.le_refl _⟩
  acting {l s l' s' created} hact := by
    cases Thread.acts_of_act hact <;> exact not_false
  waiting {w c'} h := by
    cases w with
    | waitingFull =>
      cases h
      exact ⟨not_false, rfl, Nat.le_refl _, nofun⟩
    | asleep =>
      cases h
      exact ⟨not_false, rfl, Nat.zero_le _, fun _ => Nat.le_refl _⟩
    | _ => cases h
  one {l c' l'} h := by
    cases l with
    | took =>
      cases h
      exact ⟨not_false, rfl, Nat.zero_le _⟩
    | _ => cases h
  all {l c' l'} h := by
    cases l with
    | notifyingFull =>
      cases h
      exact ⟨rfl, Nat.le_refl _, fun _ _ => trivial⟩
    | notifyingEmpty | closing =>
      cases h
      exact ⟨rfl, Nat.le_refl _, fun hc _ => absurd rfl hc⟩
    | _ => cases h
  due {l} h := by
    cases l with
    | notifyingEmpty | notifyingFull | closing => exact nofun
    | _ => cases h

/-- Clients sleep in `AddTask` while the pool runs and its queue is full. -/
def fullSignal : Signal (Thread Task K) (SimpleThreadPool Task) where
  calm s := s.stopped = false
  demand s := s.maxQueueSize - s.queue.length
  weight
    | .retrying _ _ | .took _ _ => 1
    | _ => 0
  owes
    | .notifyingFull _ => True
    | _ => False

theorem signals_full (call : K → Call Task K) : Signals (system call) .full fullSignal where
  sleeps {l s l' s' created} hact hwaits := by
    cases Thread.acts_of_act hact with
    | add _ _ h | register _ h | retry h =>
      cases h with
      | wait hfull hstopped => exact ⟨hstopped, Nat.sub_eq_zero_of_le hfull⟩
      | giveUp | push => cases hwaits
    | work h => cases h <;> cases hwaits
    | _ => cases hwaits
  created {l s l' s' created} hact w hw := by
    cases Thread.acts_of_act hact with
    | create =>
      rw [List.mem_singleton] at hw
      subst hw
      exact nofun
    | _ => cases hw
  pays {l s l' s' created} hact hawake hcalm := by
    cases Thread.acts_of_act hact with
    | add _ _ h | register _ h =>
      cases h with
      | giveUp => exact .inl ⟨hcalm, Nat.le_refl _⟩
      | wait => exact absurd rfl hawake
      | push =>
        left
        simp only [fullSignal, List.length_append, List.length_singleton]
        exact ⟨hcalm, by omega⟩
    | retry h =>
      cases h with
      | giveUp _ hstopped => exact absurd hstopped (by rw [hcalm]; decide)
      | wait => exact absurd rfl hawake
      | push =>
        left
        simp only [fullSignal, List.length_append, List.length_singleton]
        exact ⟨hcalm, by omega⟩
    | work h =>
      cases h with
      | giveUp | wait => exact .inl ⟨hcalm, Nat.le_refl _⟩
      | take hqueue =>
        left
        simp only [fullSignal, hqueue, List.length_cons]
        exact ⟨hcalm, by omega⟩
    | stop => exact .inr trivial
    | _ => exact .inl ⟨hcalm, Nat.le_refl _⟩
  acting {l s l' s' created} hact := by
    cases Thread.acts_of_act hact <;> exact not_false
  waiting {w c'} h := by
    cases w with
    | waitingFull =>
      cases h
      exact ⟨not_false, rfl, Nat.zero_le _, fun _ => Nat.le_refl _⟩
    | asleep =>
      cases h
      exact ⟨not_false, rfl, Nat.le_refl _, nofun⟩
    | _ => cases h
  one {l c' l'} h := by
    cases l with
    | took =>
      cases h
      exact ⟨not_false, rfl, Nat.le_refl _⟩
    | _ => cases h
  all {l c' l'} h := by
    cases l with
    | notifyingEmpty | closing =>
      cases h
      exact ⟨rfl, Nat.le_refl _, fun _ howes => howes.elim⟩
    | notifyingFull =>
      cases h
      exact ⟨rfl, Nat.le_refl _, fun hc _ => absurd rfl hc⟩
    | _ => cases h
  due {l} h := by
    cases l with
    | notifyingFull => exact nofun
    | _ => cases h

theorem covered_start {c : CondVar} {sig : Signal (Thread Task K) (SimpleThreadPool Task)} :
    Covered (system call) c sig (start numThreads maxQueueSize clients) := by
  rintro ⟨w, hw, hwaits⟩
  obtain ⟨k, -, rfl⟩ := Multiset.mem_map.mp hw
  cases hwaits

/-! ## What a thread may rely on -/

/-- What a section never takes back. -/
structure Grows (s s' : SimpleThreadPool Task) : Prop where
  threadLimit : s'.numThreads = s.numThreads
  threads : s.threads ≠ [] → s'.threads ≠ []
  stopped : s.stopped = true → s'.stopped = true
  joined : s.joined = true → s'.joined = true ∧ s'.threads = s.threads
  returned : ∀ id ∈ s.returned, id ∈ s'.returned

theorem Grows.refl (s : SimpleThreadPool Task) : Grows s s :=
  ⟨rfl, id, id, fun h => ⟨h, rfl⟩, fun _ => id⟩

theorem Thread.Enqueues.grows {f : Task} {k : K} {s s' : SimpleThreadPool Task}
    {l : Thread Task K} (h : Thread.Enqueues f k s l s') : Grows s s' := by
  cases h with
  | giveUp | wait => exact .refl s
  | push => exact ⟨rfl, id, id, fun h => ⟨h, rfl⟩, fun _ => id⟩

theorem Thread.Acts.grows {l l' : Thread Task K} {s s' : SimpleThreadPool Task}
    {created : List (Thread Task K)} (h : Thread.Acts call l s l' s' created) : Grows s s' := by
  cases h with
  | callAddTask | callStopAll | callJoinAll | grow | joinedBefore | join | joinedAll =>
    exact .refl s
  | addCrash | registerCrash | create | finish =>
    exact ⟨rfl, id, id, fun h => ⟨h, rfl⟩, fun _ => id⟩
  | add _ _ h | retry h => exact h.grows
  | register hjoined h =>
    obtain ⟨hnum, hthreads, hstopped, -, hreturned⟩ := h.grows
    refine ⟨hnum, fun _ => hthreads (by simp), hstopped, fun h => ?_, hreturned⟩
    rw [hjoined] at h
    cases h
  | stop => exact ⟨rfl, id, fun _ => rfl, fun h => ⟨h, rfl⟩, fun _ => id⟩
  | close => exact ⟨rfl, id, id, fun _ => ⟨rfl, rfl⟩, fun _ => id⟩
  | work h =>
    cases h with
    | giveUp =>
      exact ⟨rfl, id, id, fun h => ⟨h, rfl⟩, fun _ => List.mem_append_left _⟩
    | wait => exact .refl s
    | take => exact ⟨rfl, id, id, fun h => ⟨h, rfl⟩, fun _ => id⟩

/-- A client in the loop of `AddTask` has a worker, and a client in `JoinAll` has joined the workers
that it passed. -/
def Thread.Fits (s : SimpleThreadPool Task) : Thread Task K → Prop
  | waitingFull _ _ | retrying _ _ => s.threads ≠ []
  | closing _ => s.joined = true
  | joining i _ => s.joined = true ∧ ∀ j < i, ∀ id, s.threads[j]? = some id → id ∈ s.returned
  | _ => True

theorem Thread.Fits.grows {s s' : SimpleThreadPool Task} {l : Thread Task K}
    (h : Grows s s') (hl : l.Fits s) : l.Fits s' := by
  cases l with
  | waitingFull | retrying => exact h.threads hl
  | closing => exact (h.joined hl).1
  | joining i k =>
    obtain ⟨hjoined, hthreads⟩ := h.joined hl.1
    refine ⟨hjoined, fun j hj id hid => ?_⟩
    rw [hthreads] at hid
    exact h.returned id (hl.2 j hj id hid)
  | _ => trivial

theorem Thread.fits_enqueues {f : Task} {k : K} {s s' : SimpleThreadPool Task}
    {l : Thread Task K} (h : Thread.Enqueues f k s l s') (hs : s.threads ≠ []) : l.Fits s' := by
  cases h with
  | giveUp | push => trivial
  | wait => exact hs

theorem Thread.Acts.fits {l l' : Thread Task K} {s s' : SimpleThreadPool Task}
    {created : List (Thread Task K)} (h : Thread.Acts call l s l' s' created)
    (hnum : 0 < s.numThreads) (hl : l.Fits s) : l'.Fits s' ∧ ∀ w ∈ created, w.Fits s' := by
  cases h with
  | add _ hfull h =>
    refine ⟨Thread.fits_enqueues h fun hthreads => ?_, nofun⟩
    rw [hthreads, List.length_nil] at hfull
    omega
  | register _ h => exact ⟨Thread.fits_enqueues h (by simp), nofun⟩
  | retry h => exact ⟨Thread.fits_enqueues h hl, nofun⟩
  | close => exact ⟨rfl, nofun⟩
  | @join i id k s hid hreturned =>
    refine ⟨⟨hl.1, fun j hj id' hid' => ?_⟩, nofun⟩
    obtain hj | rfl := Nat.lt_succ_iff_lt_or_eq.mp hj
    · exact hl.2 j hj id' hid'
    · rw [hid] at hid'
      cases hid'
      exact hreturned
  | create =>
    refine ⟨trivial, fun w hw => ?_⟩
    rw [List.mem_singleton] at hw
    subst hw
    trivial
  | work h => cases h <;> exact ⟨trivial, nofun⟩
  | _ => exact ⟨trivial, nofun⟩

theorem Thread.Silent.fits {s : SimpleThreadPool Task} {l l' : Thread Task K}
    (h : Thread.Silent l l') (hl : l.Fits s) : l'.Fits s := by
  cases h with
  | retry => exact hl
  | join => exact ⟨hl, nofun⟩
  | _ => trivial

theorem fits_of_reaches (hnum : 0 < numThreads)
    (hrun : (system call).Reaches (start numThreads maxQueueSize clients) cfg) :
    ∀ l ∈ cfg.threads, l.Fits cfg.shared := by
  apply hrun.each (fun s l => l.Fits s)
  · intro l hl
    obtain ⟨k, -, rfl⟩ := Multiset.mem_map.mp hl
    trivial
  · intro cfg l l' s' created hreach _ hact hl
    have hacts := Thread.acts_of_act hact
    have hlimit := (sound_of_reaches hreach).threadLimit
    obtain ⟨hl', hcreated⟩ := hacts.fits (by omega) hl
    exact ⟨hl', hcreated, fun m => Thread.Fits.grows hacts.grows⟩
  · exact fun h => (silent_woken h).fits
  · exact fun h => (silent_one h).fits
  · exact fun h => (silent_all h).fits

/-- A pool to which a task was added has a worker. -/
theorem manned (hnum : 0 < numThreads)
    (hrun : (system call).Reaches (start numThreads maxQueueSize clients) cfg) :
    cfg.shared.added ≠ [] → cfg.shared.threads ≠ [] := by
  apply hrun.shared (fun s => s.added ≠ [] → s.threads ≠ [])
  · exact fun h => absurd rfl h
  · intro cfg l l' s' created hreach hl hact ha
    have hfits := fits_of_reaches hnum hreach l hl
    have hlimit := (sound_of_reaches hreach).threadLimit
    cases Thread.acts_of_act hact with
    | add _ hfull h =>
      have hthreads : cfg.shared.threads ≠ [] := fun h => by
        rw [h, List.length_nil] at hfull
        omega
      cases h <;> exact fun _ => hthreads
    | register _ h => cases h <;> simp
    | retry h => cases h <;> exact fun _ => hfits
    | work h => cases h <;> exact ha
    | _ => exact ha

/-- A worker that returned is nowhere else. -/
theorem eq_returned (hrun : (system call).Reaches (start numThreads maxQueueSize clients) cfg)
    {l : Thread Task K} (hl : l ∈ cfg.threads) {id : Nat} (hid : id ∈ l.ident)
    (hreturned : id ∈ cfg.shared.returned) : l = .returned id := by
  have hsum : id ∈ (cfg.threads.map Thread.ended).sum := by
    rw [ended_of_reaches hrun]
    exact hreturned
  obtain ⟨m, hm, hended⟩ := mem_sum_map.mp hsum
  obtain rfl : m = .returned id := by
    cases m with
    | returned => rw [Multiset.mem_singleton.mp hended]
    | _ => cases Multiset.notMem_zero _ hended
  have hnodup : (cfg.threads.map Thread.ident).sum.Nodup := by
    rw [idents_of_reaches hrun]
    exact Multiset.nodup_range _
  exact eq_of_mem_sum hnodup hl hm hid (Multiset.mem_singleton_self id)

/-! ## Joining -/

/-- Between the check of `joined_` in `AddTask` and its push. -/
def Thread.midAdd : Thread Task K → Bool
  | creating _ _ | registering _ _ _ | waitingFull _ _ | retrying _ _ => true
  | _ => false

/-- No `AddTask` overlaps with `JoinAll`. -/
def Tidy (cfg : Config (Thread Task K) (SimpleThreadPool Task)) : Prop :=
  cfg.shared.joined = true → ∀ l ∈ cfg.threads, l.midAdd = false

def TidyReaches (call : K → Call Task K) (a b : Config (Thread Task K) (SimpleThreadPool Task)) :
    Prop :=
  Relation.ReflTransGen (fun a b => (system call).Step a b ∧ Tidy b) a b

theorem TidyReaches.reaches {a b : Config (Thread Task K) (SimpleThreadPool Task)}
    (h : TidyReaches call a b) : (system call).Reaches a b :=
  Relation.ReflTransGen.mono (fun _ _ => And.left) _ _ h

theorem TidyReaches.tidy
    (h : TidyReaches call (start numThreads maxQueueSize clients) cfg) : Tidy cfg := by
  cases h with
  | refl => exact fun h => by cases h
  | tail _ hstep => exact hstep.2

/-- Clients in the middle of `AddTask`, and the others. -/
def Thread.place : Thread Task K → Nat × Nat
  | creating _ _ | registering _ _ _ | waitingFull _ _ | retrying _ _ => (1, 0)
  | outside _ | adding _ _ | notifyingEmpty _ | stopping _ | notifyingFull _ | joiningAll _
  | closing _ | joining _ _ => (0, 1)
  | working _ | asleep _ | took _ _ | running _ _ | returned _ => 0

theorem place_of_one {k : K}
    (hrun : (system call).Reaches (start numThreads maxQueueSize {k}) cfg) :
    (cfg.threads.map Thread.place).sum.1 + (cfg.threads.map Thread.place).sum.2 = 1 ∧
      (cfg.shared.joined = true → (cfg.threads.map Thread.place).sum.1 = 0) := by
  apply tally hrun (fun s (m : Nat × Nat) => m.1 + m.2 = 1 ∧ (s.joined = true → m.1 = 0))
  · simp [new, Thread.place]
  · intro cfg l l' s' created _ _ hact rest ha
    cases hact with
    | callAddTask | callStopAll | callJoinAll | addCrash | registerCrash | stop
    | joinedBefore | join | joinedAll | finish | create => simpa [Thread.place] using ha
    | grow hjoined =>
      simp [Thread.place, hjoined] at ha ⊢
      omega
    | add hjoined _ h | register hjoined h =>
      cases h <;> (simp [Thread.place, hjoined] at ha ⊢; omega)
    | retry h =>
      cases h with
      | wait => simpa [Thread.place] using ha
      | giveUp | push =>
        simp [Thread.place] at ha ⊢
        omega
    | close =>
      simp [Thread.place] at ha ⊢
      omega
    | work h => cases h <;> simpa [Thread.place] using ha
  · intro l l' h
    cases h <;> rfl

/-- A client alone cannot be in `AddTask` and in `JoinAll`. -/
theorem tidy_of_one {k : K}
    (hrun : (system call).Reaches (start numThreads maxQueueSize {k}) cfg) : Tidy cfg := by
  intro hjoined l hl
  have hplace := (place_of_one hrun).2 hjoined
  obtain ⟨rest, hrest⟩ := Multiset.exists_cons_of_mem hl
  rw [hrest, Multiset.map_cons, Multiset.sum_cons, Prod.fst_add] at hplace
  cases l with
  | creating | registering | waitingFull | retrying =>
    simp only [Thread.place] at hplace
    omega
  | _ => rfl

theorem tidyReaches_of_one {k : K}
    (hrun : (system call).Reaches (start numThreads maxQueueSize {k}) cfg) :
    TidyReaches call (start numThreads maxQueueSize {k}) cfg := by
  induction hrun with
  | refl => exact .refl
  | tail hrun hstep ih => exact ih.tail ⟨hstep, tidy_of_one (hrun.tail hstep)⟩

/-- The workers of a joined pool do not return before its queue is empty. -/
def Drained (s : SimpleThreadPool Task) : Prop :=
  s.joined = true → s.stopped = false → s.returned ≠ [] → s.queue = []

theorem Drained.acts {l l' : Thread Task K} {s s' : SimpleThreadPool Task}
    {created : List (Thread Task K)} (h : Thread.Acts call l s l' s' created)
    (htidy : s.joined = true → l.midAdd = false)
    (hended : s.returned ≠ [] → s.stopped = true ∨ s.joined = true) (hs : s.Drained) :
    s'.Drained := by
  cases h with
  | add hjoined _ h | register hjoined h =>
    intro hjoined'
    cases h <;> exact absurd hjoined' (by rw [hjoined]; decide)
  | retry h =>
    intro hjoined
    cases h <;> cases htidy hjoined
  | stop => exact fun _ hstopped => by cases hstopped
  | close hjoined =>
    intro _ hstopped hreturned
    rcases hended hreturned with h | h
    · exact absurd h (by rw [hstopped]; decide)
    · exact absurd h (by rw [hjoined]; decide)
  | work h =>
    cases h with
    | giveUp hend =>
      intro _ hstopped _
      rcases hend with h | h
      · exact absurd h (by rw [hstopped]; decide)
      · exact h.1
    | wait => exact hs
    | take hqueue =>
      intro hjoined hstopped hreturned
      rw [hs hjoined hstopped hreturned] at hqueue
      cases hqueue
  | _ => exact hs

theorem TidyReaches.drained
    (h : TidyReaches call (start numThreads maxQueueSize clients) cfg) : cfg.shared.Drained := by
  induction h with
  | refl => exact fun h => by cases h
  | tail hrun hstep ih =>
    have htidy := TidyReaches.tidy hrun
    have hended := (sound_of_reaches (TidyReaches.reaches hrun)).ended
    exact hstep.1.shared ih fun hl hact hs =>
      hs.acts (Thread.acts_of_act hact) (fun hjoined => htidy hjoined _ hl) hended

/-- In a joined pool all workers are in `threads_`. -/
theorem TidyReaches.threads
    (h : TidyReaches call (start numThreads maxQueueSize clients) cfg)
    (hjoined : cfg.shared.joined = true) :
    (cfg.shared.threads : Multiset Nat) = Multiset.range cfg.shared.created := by
  rw [← pending_of_reaches h.reaches, sum_map_eq_zero, add_zero]
  intro l hl
  have hmid := h.tidy hjoined l hl
  cases l with
  | registering => cases hmid
  | _ => rfl

/-- Without a worker that holds one, the tasks that were taken are finished. -/
theorem finished_of_idle
    (hrun : (system call).Reaches (start numThreads maxQueueSize clients) cfg)
    (hidle : ∀ l ∈ cfg.threads, l.held = 0) :
    (cfg.shared.finished : Multiset Task) = cfg.shared.started := by
  rw [started_of_reaches hrun, sum_map_eq_zero hidle, add_zero]

theorem finished_of_empty
    (hrun : (system call).Reaches (start numThreads maxQueueSize clients) cfg)
    (hidle : ∀ l ∈ cfg.threads, l.held = 0) (hqueue : cfg.shared.queue = []) :
    (cfg.shared.finished : Multiset Task) = cfg.shared.added := by
  rw [finished_of_idle hrun hidle, (sound_of_reaches hrun).fifo, hqueue, List.append_nil]

/-- The queue of a pool without workers is empty, for nothing was added to it. -/
theorem queue_of_unmanned (hnum : 0 < numThreads)
    (hrun : (system call).Reaches (start numThreads maxQueueSize clients) cfg)
    (hthreads : cfg.shared.threads = []) : cfg.shared.queue = [] := by
  have hadded : cfg.shared.added = [] := by
    by_contra hadded
    exact manned hnum hrun hadded hthreads
  rw [(sound_of_reaches hrun).fifo] at hadded
  exact (List.append_eq_nil_iff.mp hadded).2

/-- When the `JoinAll` that set `joined_` comes back no task is running, and unless the pool was
stopped all the tasks that were added are finished. -/
theorem joinAll_finished (call : K → Call Task K) (numThreads maxQueueSize : Nat)
    (clients : Multiset K) (cfg : Config (Thread Task K) (SimpleThreadPool Task))
    (hnum : 0 < numThreads) (hrun : TidyReaches call (start numThreads maxQueueSize clients) cfg)
    (i : Nat) (k : K) (hl : Thread.joining i k ∈ cfg.threads)
    (hi : cfg.shared.threads.length ≤ i) :
    (cfg.shared.finished : Multiset Task) = cfg.shared.started ∧
      (cfg.shared.stopped = false →
        (cfg.shared.finished : Multiset Task) = cfg.shared.added) := by
  obtain ⟨hjoined, hpassed⟩ := fits_of_reaches hnum hrun.reaches _ hl
  have hreturned : ∀ id ∈ cfg.shared.threads, id ∈ cfg.shared.returned := by
    intro id hid
    obtain ⟨j, hj, hget⟩ := List.mem_iff_getElem.mp hid
    exact hpassed j (by omega) id (by rw [List.getElem?_eq_getElem hj, hget])
  have hended : ∀ m ∈ cfg.threads, ∀ id ∈ m.ident, m = .returned id := by
    intro m hm id hid
    apply eq_returned hrun.reaches hm hid
    apply hreturned
    rw [← Multiset.mem_coe, hrun.threads hjoined, ← idents_of_reaches hrun.reaches]
    exact mem_sum_map.mpr ⟨m, hm, hid⟩
  have hidle : ∀ m ∈ cfg.threads, m.held = 0 := by
    intro m hm
    cases m with
    | took id f | running id f => cases hended _ hm id (Multiset.mem_singleton_self id)
    | _ => rfl
  refine ⟨finished_of_idle hrun.reaches hidle, fun hstopped => ?_⟩
  apply finished_of_empty hrun.reaches hidle
  by_cases hthreads : cfg.shared.threads = []
  · exact queue_of_unmanned hnum hrun.reaches hthreads
  · obtain ⟨id, hid⟩ := List.exists_mem_of_ne_nil _ hthreads
    exact hrun.drained hjoined hstopped (List.ne_nil_of_mem (hreturned id hid))

theorem joinAll_finished_oneTask : (([7] : List Nat) : Multiset Nat) = [7] ∧
    (false = false → (([7] : List Nat) : Multiset Nat) = [7]) :=
  joinAll_finished oneTask 1 1 {0} _ Nat.one_pos (tidyReaches_of_one reaches_joining) 1 2
    (by simp) (Nat.le_refl 1)

/-! ## Deadlocks -/

/-- Where a thread may stand for good. -/
inductive Thread.Settled (call : K → Call Task K) (s : SimpleThreadPool Task) :
    Thread Task K → Prop
  | done {k : K} (h : call k = .done) : Settled call s (outside k)
  | returned {id : Nat} (h : s.stopped = true ∨ s.joined = true) : Settled call s (returned id)
  | asleep {id : Nat} (hqueue : s.queue = []) (hjoined : s.joined = false)
      (hstopped : s.stopped = false) : Settled call s (asleep id)
  /-- In an `AddTask` that overlaps with `JoinAll`. -/
  | late {f : Task} {k : K} (hfull : s.maxQueueSize ≤ s.queue.length) (hjoined : s.joined = true)
      (hstopped : s.stopped = false) : Settled call s (waitingFull f k)

/-- What a thread that cannot move may wait for. -/
inductive Thread.Stuck (call : K → Call Task K) (s : SimpleThreadPool Task) :
    Thread Task K → Prop
  | done {k : K} (h : call k = .done) : Stuck call s (outside k)
  | returned {id : Nat} : Stuck call s (returned id)
  | asleep {id : Nat} : Stuck call s (asleep id)
  | full {f : Task} {k : K} : Stuck call s (waitingFull f k)
  | join {i id : Nat} {k : K} (hid : s.threads[i]? = some id) (h : id ∉ s.returned) :
      Stuck call s (joining i k)

theorem stuck_of_quiet (hquiet : (system call).Quiet cfg) {l : Thread Task K}
    (hl : l ∈ cfg.threads) : l.Stuck call cfg.shared := by
  have hact : l.act call cfg.shared = none := hquiet.not_act hl
  have hone : l.notifiesOne = none := hquiet.not_notifiesOne hl
  have hall : l.notifiesAll = none := hquiet.not_notifiesAll hl
  cases l with
  | outside k =>
    simp only [Thread.act] at hact
    split at hact
    · exact .done ‹_›
    · cases hact
    · cases hact
    · cases hact
  | adding f k =>
    simp only [Thread.act] at hact
    split at hact
    · cases hact
    · split at hact <;> cases hact
  | registering id f k =>
    simp only [Thread.act] at hact
    split at hact <;> cases hact
  | joiningAll k =>
    simp only [Thread.act] at hact
    split at hact <;> cases hact
  | joining i k =>
    simp only [Thread.act] at hact
    split at hact
    · cases hact
    · split at hact
      · cases hact
      · exact .join ‹_› ‹_›
  | returned => exact .returned
  | asleep => exact .asleep
  | waitingFull => exact .full
  | creating | retrying | stopping | working | running => cases hact
  | took => cases hone
  | notifyingEmpty | notifyingFull | closing => cases hall

theorem asleep_of_quiet (hrun : (system call).Reaches (start numThreads maxQueueSize clients) cfg)
    (hquiet : (system call).Quiet cfg) {id : Nat} (hl : Thread.asleep id ∈ cfg.threads) :
    cfg.shared.queue = [] ∧ cfg.shared.joined = false ∧ cfg.shared.stopped = false := by
  have hcovered := (signals_empty call).reaches hrun covered_start
  obtain ⟨hcalm, hdemand⟩ := (signals_empty call).quiet hcovered hquiet (fun m hm => by
    cases stuck_of_quiet hquiet hm <;> rfl) hl rfl
  exact ⟨List.eq_nil_of_length_eq_zero hdemand, hcalm⟩

theorem full_of_quiet (hrun : (system call).Reaches (start numThreads maxQueueSize clients) cfg)
    (hquiet : (system call).Quiet cfg) {f : Task} {k : K}
    (hl : Thread.waitingFull f k ∈ cfg.threads) :
    cfg.shared.maxQueueSize ≤ cfg.shared.queue.length ∧ cfg.shared.stopped = false := by
  have hcovered := (signals_full call).reaches hrun covered_start
  obtain ⟨hcalm, hdemand⟩ := (signals_full call).quiet hcovered hquiet (fun m hm => by
    cases stuck_of_quiet hquiet hm <;> rfl) hl rfl
  exact ⟨Nat.le_of_sub_eq_zero hdemand, hcalm⟩

theorem mem_returned (hrun : (system call).Reaches (start numThreads maxQueueSize clients) cfg)
    {id : Nat} (hl : Thread.returned id ∈ cfg.threads) : id ∈ cfg.shared.returned := by
  rw [← Multiset.mem_coe, ← ended_of_reaches hrun]
  exact mem_sum_map.mpr ⟨_, hl, Multiset.mem_singleton_self id⟩

/-- When nothing moves, a worker sleeps or returned. -/
theorem worker_of_quiet (hrun : (system call).Reaches (start numThreads maxQueueSize clients) cfg)
    (hquiet : (system call).Quiet cfg) {id : Nat} (hid : id ∈ cfg.shared.threads) :
    Thread.asleep id ∈ cfg.threads ∨ id ∈ cfg.shared.returned := by
  have hcreated : id ∈ (cfg.threads.map Thread.ident).sum := by
    rw [idents_of_reaches hrun, ← pending_of_reaches hrun]
    exact Multiset.mem_add.mpr (.inl hid)
  obtain ⟨l, hl, hident⟩ := mem_sum_map.mp hcreated
  cases stuck_of_quiet hquiet hl with
  | asleep =>
    rw [Multiset.mem_singleton.mp hident]
    exact .inl hl
  | returned =>
    rw [Multiset.mem_singleton.mp hident]
    exact .inr (mem_returned hrun hl)
  | done | full | join => cases Multiset.notMem_zero _ hident

/-- The pool does not deadlock: when nothing moves, the clients are through their programs and the
workers returned or sleep at an empty queue. Only an `AddTask` that overlaps with `JoinAll` may
sleep for good, when the workers are gone. -/
theorem settled_of_quiet (call : K → Call Task K) (numThreads maxQueueSize : Nat)
    (clients : Multiset K) (cfg : Config (Thread Task K) (SimpleThreadPool Task))
    (hnum : 0 < numThreads) (hmax : 0 < maxQueueSize)
    (hrun : (system call).Reaches (start numThreads maxQueueSize clients) cfg)
    (hquiet : (system call).Quiet cfg) (l : Thread Task K) (hl : l ∈ cfg.threads) :
    l.Settled call cfg.shared := by
  have hended := (sound_of_reaches hrun).ended
  have hfits := fits_of_reaches hnum hrun l hl
  cases stuck_of_quiet hquiet hl with
  | done h => exact .done h
  | returned => exact .returned (hended (List.ne_nil_of_mem (mem_returned hrun hl)))
  | asleep =>
    obtain ⟨hqueue, hjoined, hstopped⟩ := asleep_of_quiet hrun hquiet hl
    exact .asleep hqueue hjoined hstopped
  | full =>
    obtain ⟨hfull, hstopped⟩ := full_of_quiet hrun hquiet hl
    obtain ⟨id, hid⟩ := List.exists_mem_of_ne_nil _ hfits
    obtain hasleep | hreturned := worker_of_quiet hrun hquiet hid
    · have hlimit := (sound_of_reaches hrun).queueLimit
      rw [(asleep_of_quiet hrun hquiet hasleep).1, List.length_nil] at hfull
      omega
    · obtain h | h := hended (List.ne_nil_of_mem hreturned)
      · exact absurd h (by rw [hstopped]; decide)
      · exact .late hfull h hstopped
  | join hid h =>
    obtain hasleep | hreturned := worker_of_quiet hrun hquiet (List.mem_of_getElem? hid)
    · exact absurd hfits.1 (by rw [(asleep_of_quiet hrun hquiet hasleep).2.1]; decide)
    · exact absurd hreturned h

theorem quiet_oneTaskDone :
    (system oneTask).Quiet ⟨{.outside 2, .returned 0}, oneTaskDone⟩ := by
  apply quiet_of_stuck
  intro l hl
  have hl : l = .outside 2 ∨ l = .returned 0 := by simpa using hl
  obtain rfl | rfl := hl <;> exact ⟨rfl, rfl, rfl⟩

theorem settled_of_quiet_oneTask : Thread.Settled oneTask oneTaskDone (.returned 0) :=
  settled_of_quiet oneTask 1 1 {0} _ Nat.one_pos Nat.one_pos reaches_oneTaskDone
    quiet_oneTaskDone (.returned 0) (by simp)

/-- When nothing moves in a pool that was not stopped, every task that was added is finished. -/
theorem finished_of_quiet (call : K → Call Task K) (numThreads maxQueueSize : Nat)
    (clients : Multiset K) (cfg : Config (Thread Task K) (SimpleThreadPool Task))
    (hnum : 0 < numThreads) (hrun : TidyReaches call (start numThreads maxQueueSize clients) cfg)
    (hquiet : (system call).Quiet cfg) (hstopped : cfg.shared.stopped = false) :
    (cfg.shared.finished : Multiset Task) = cfg.shared.added := by
  apply finished_of_empty hrun.reaches
  · intro l hl
    cases stuck_of_quiet hquiet hl <;> rfl
  · by_cases hthreads : cfg.shared.threads = []
    · exact queue_of_unmanned hnum hrun.reaches hthreads
    · obtain ⟨id, hid⟩ := List.exists_mem_of_ne_nil _ hthreads
      obtain hasleep | hreturned := worker_of_quiet hrun.reaches hquiet hid
      · exact (asleep_of_quiet hrun.reaches hquiet hasleep).1
      · have hne := List.ne_nil_of_mem hreturned
        obtain h | h := (sound_of_reaches hrun.reaches).ended hne
        · exact absurd h (by rw [hstopped]; decide)
        · exact hrun.drained h hstopped hne

theorem finished_of_quiet_oneTask : (([7] : List Nat) : Multiset Nat) = [7] :=
  finished_of_quiet oneTask 1 1 {0} _ Nat.one_pos (tidyReaches_of_one reaches_oneTaskDone)
    quiet_oneTaskDone rfl

end SimpleThreadPool
end InferUI
