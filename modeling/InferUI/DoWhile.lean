import Mathlib.Tactic.TypeStar

/-!
# Do-while loops

A loop whose body says whether it is executed again. What holds of the state that every execution
starts from is proved by an invariant, and an invariant that bounds the number of executions makes
the loop return.
-/

namespace DoWhile
variable {σ ρ : Type*}

/-- How an execution of the body ends. -/
inductive Next (σ ρ : Type*) where
  | again (state : σ)
  | leave (result : ρ)

def Next.again? : Next σ ρ → Option σ
  | .again state => some state
  | .leave _ => none

theorem Next.again?_eq_some {next : Next σ ρ} {state : σ} (h : next.again? = some state) :
    next = .again state := by
  cases next with
  | again s => exact congrArg Next.again (Option.some.inj h)
  | leave _ => cases h

/-- `none` when the body is executed more often than the fuel allows. -/
def run (body : σ → Next σ ρ) : Nat → σ → Option ρ
  | 0, _ => none
  | fuel + 1, state =>
    match body state with
    | .again next => run body fuel next
    | .leave result => some result

/-- The body has been executed so many times and is executed again from this state. -/
inductive After (body : σ → Next σ ρ) (first : σ) : Nat → σ → Prop where
  | start : After body first 0 first
  | again {n : Nat} {state next : σ} : After body first n state → body state = .again next →
      After body first (n + 1) next

section
variable {body : σ → Next σ ρ} {first state : σ} {n : Nat}

theorem After.invariant (h : After body first n state) {P : σ → Prop} (hfirst : P first)
    (hstep : ∀ s s', P s → body s = .again s' → P s') : P state := by
  induction h with
  | start => exact hfirst
  | again _ hbody ih => exact hstep _ _ ih hbody

/-- Every state before this one was left by an execution that goes on. -/
theorem After.invariant_of (h : After body first n state) {P Q : σ → Prop} (hfirst : P first)
    (hstep : ∀ s s', P s → Q s → body s = .again s' → P s')
    (hall : ∀ k s, k < n → After body first k s → Q s) : P state := by
  induction h with
  | start => exact hfirst
  | @again n s s' hafter hbody ih =>
    have hs := ih fun k t hk ht => hall k t (by omega) ht
    exact hstep s s' hs (hall n s (by omega) hafter) hbody

/-- What grows by one with every execution counts them. -/
theorem After.count (h : After body first n state) {P : σ → Prop} {m : σ → Nat} (hfirst : P first)
    (hstep : ∀ s s', P s → body s = .again s' → P s' ∧ m s' = m s + 1) :
    m state = m first + n := by
  induction h with
  | start => rfl
  | again hafter hbody ih =>
    have hinv := hafter.invariant hfirst fun s s' hs hb => (hstep s s' hs hb).1
    rw [(hstep _ _ hinv hbody).2, ih]
    rfl

/-- A loop that returns does so in the last execution of its body. -/
theorem After.last (h : After body first n state) {fuel : Nat} {result : ρ}
    (hrun : run body fuel state = some result) :
    ∃ k final, After body first k final ∧ body final = .leave result := by
  induction fuel generalizing n state with
  | zero => cases hrun
  | succ fuel ih =>
    unfold run at hrun
    cases hbody : body state with
    | again next =>
      rw [hbody] at hrun
      exact ih (h.again hbody) hrun
    | leave result' =>
      rw [hbody] at hrun
      obtain rfl := Option.some.inj hrun
      exact ⟨n, state, h, hbody⟩

/-- A loop that goes on a bounded number of times returns. -/
theorem run_isSome {bound : Nat} (hbound : ∀ n state, After body first n state → n ≤ bound) :
    ∃ result, run body (bound + 1) first = some result := by
  have returns (fuel n : Nat) (state : σ) (h : After body first n state)
      (hfuel : n + fuel = bound + 1) : ∃ result, run body fuel state = some result := by
    induction fuel generalizing n state with
    | zero =>
      have := hbound n state h
      omega
    | succ fuel ih =>
      unfold run
      cases hbody : body state with
      | again next => exact ih (n + 1) next (h.again hbody) (by omega)
      | leave result => exact ⟨result, rfl⟩
  exact returns (bound + 1) 0 first .start (by omega)

end
end DoWhile
