import Mathlib.Logic.Relation
import Mathlib.Data.Finset.Card
import Mathlib.Data.Finset.Filter
import Mathlib.Data.Set.Function

/-!
# Directed graphs given by successor lists

Reachability, acyclic graphs and their ranks, nodes all of whose paths end well, and a
depth-first search whose visited set holds keys of nodes. Nothing is assumed of the type of
nodes; where a graph has to be finite, `nodes` is a finite set closed under successors.
-/

namespace Search
variable {α β : Type*}

def Edge (succ : α → List α) (a b : α) : Prop := b ∈ succ a

def Reaches (succ : α → List α) : α → α → Prop := Relation.ReflTransGen (Edge succ)

def Acyclic (succ : α → List α) : Prop := ∀ a, ¬ Relation.TransGen (Edge succ) a a

def Closed (succ : α → List α) (nodes : Finset α) : Prop := ∀ a ∈ nodes, ∀ t ∈ succ a, t ∈ nodes

theorem Reaches.refl {succ : α → List α} (a : α) : Reaches succ a a := Relation.ReflTransGen.refl

theorem Reaches.head {succ : α → List α} {a t b : α} (ht : t ∈ succ a) (h : Reaches succ t b) :
    Reaches succ a b :=
  Relation.ReflTransGen.head ht h

theorem Reaches.closed {succ : α → List α} {nodes : Finset α} (hclosed : Closed succ nodes)
    {a b : α} (h : Reaches succ a b) (ha : a ∈ nodes) : b ∈ nodes := by
  induction h with
  | refl => exact ha
  | tail _ hedge ih => exact hclosed _ ih _ hedge

/-- An edge never leads back in an acyclic graph. -/
theorem Acyclic.not_reaches {succ : α → List α} (h : Acyclic succ) {a t : α} (ht : t ∈ succ a) :
    ¬ Reaches succ t a := by
  intro hback
  exact h a (Relation.TransGen.head' ht hback)

/-- A graph is acyclic when no edge leads back. -/
theorem acyclic_of_not_reaches {succ : α → List α}
    (h : ∀ a, ∀ t ∈ succ a, ¬ Reaches succ t a) : Acyclic succ := by
  intro a hcycle
  obtain ⟨t, ht, hback⟩ := Relation.TransGen.head'_iff.mp hcycle
  exact h a t ht hback

theorem acyclic_of_rank {succ : α → List α} (rank : α → Nat)
    (h : ∀ a, ∀ t ∈ succ a, rank t < rank a) : Acyclic succ := by
  have descend {a b : α} (hab : Relation.TransGen (Edge succ) a b) : rank b < rank a := by
    induction hab with
    | single hedge => exact h _ _ hedge
    | tail _ hedge ih => exact (h _ _ hedge).trans ih
  intro a ha
  exact lt_irrefl _ (descend ha)

/-- The nodes of a finite acyclic graph can be ranked by how many nodes they reach. -/
theorem Acyclic.exists_rank {succ : α → List α} (h : Acyclic succ) {nodes : Finset α}
    (hclosed : Closed succ nodes) :
    ∃ rank : α → Nat, ∀ a ∈ nodes, rank a < nodes.card ∧ ∀ t ∈ succ a, rank t < rank a := by
  classical
  refine ⟨fun a => (nodes.filter fun x => Relation.TransGen (Edge succ) a x).card, ?_⟩
  intro a ha
  constructor
  · apply Finset.card_lt_card
    rw [Finset.ssubset_iff_of_subset (Finset.filter_subset _ _)]
    exact ⟨a, ha, fun hm => h a (Finset.mem_filter.mp hm).2⟩
  · intro t ht
    apply Finset.card_lt_card
    rw [Finset.ssubset_iff_of_subset]
    · refine ⟨t, Finset.mem_filter.mpr ⟨hclosed a ha t ht, .single ht⟩, ?_⟩
      intro hm
      exact h t (Finset.mem_filter.mp hm).2
    · intro x hx
      obtain ⟨hx, htx⟩ := Finset.mem_filter.mp hx
      exact Finset.mem_filter.mpr ⟨hx, .head ht htx⟩

/-! ## Changing the successors of one node -/

section Update
variable [DecidableEq α]

/-- Where the changed node is not reached, the change is not seen. -/
theorem reaches_update {succ : α → List α} {v : α} {ts : List α} {a b : α}
    (hv : ¬ Reaches succ a v) :
    Reaches (Function.update succ v ts) a b ↔ Reaches succ a b := by
  constructor
  · intro h
    induction h with
    | refl => exact .refl a
    | @tail b c hab hedge ih =>
      have hb : b ≠ v := by
        rintro rfl
        exact hv ih
      rw [Edge, Function.update_of_ne hb] at hedge
      exact ih.tail hedge
  · intro h
    induction h with
    | refl => exact .refl a
    | @tail b c hab hedge ih =>
      have hb : b ≠ v := by
        rintro rfl
        exact hv hab
      refine ih.tail ?_
      rw [Edge, Function.update_of_ne hb]
      exact hedge

/-- New edges from `v` close a cycle through `v` exactly when one of their ends reached `v` before.
A way back that uses the old edges of `v` has come to `v` already. -/
theorem cycle_update_iff {succ : α → List α} {v : α} {ts : List α} :
    Relation.TransGen (Edge (Function.update succ v ts)) v v ↔ ∃ t ∈ ts, Reaches succ t v := by
  rw [Relation.TransGen.head'_iff]
  constructor
  · rintro ⟨t, ht, hback⟩
    rw [Edge, Function.update_self] at ht
    refine ⟨t, ht, ?_⟩
    by_contra hno
    exact hno ((reaches_update hno).mp hback)
  · rintro ⟨t, ht, hback⟩
    refine ⟨t, ?_, ?_⟩
    · rw [Edge, Function.update_self]
      exact ht
    · clear ht
      induction hback using Relation.ReflTransGen.head_induction_on with
      | refl => exact .refl
      | @head a b hab _ ih =>
        by_cases ha : a = v
        · rw [ha]
        · refine ih.head ?_
          rw [Edge, Function.update_of_ne ha]
          exact hab

/-- New edges from `v` close no cycle unless one of their ends reaches `v`. -/
theorem Acyclic.update {succ : α → List α} (h : Acyclic succ) {v : α} {ts : List α}
    (hts : ∀ t ∈ ts, ¬ Reaches succ t v) : Acyclic (Function.update succ v ts) := by
  -- nothing reached from the new edges leads back to `v`
  have hdead (t : α) (ht : t ∈ ts) : ¬ Reaches (Function.update succ v ts) t v := by
    rw [reaches_update (hts t ht)]
    exact hts t ht
  have split {a b : α} (hab : Relation.TransGen (Edge (Function.update succ v ts)) a b) :
      Relation.TransGen (Edge succ) a b ∨ Reaches (Function.update succ v ts) a v ∧
        ∃ t ∈ ts, Reaches (Function.update succ v ts) t b := by
    induction hab with
    | @single b hedge =>
      by_cases ha : a = v
      · subst ha
        rw [Edge, Function.update_self] at hedge
        exact Or.inr ⟨.refl a, b, hedge, .refl b⟩
      · rw [Edge, Function.update_of_ne ha] at hedge
        exact Or.inl (.single hedge)
    | @tail b c hab hedge ih =>
      by_cases hb : b = v
      · subst hb
        rw [Edge, Function.update_self] at hedge
        exact Or.inr ⟨hab.to_reflTransGen, c, hedge, .refl c⟩
      · obtain hin | ⟨hav, t, ht, htb⟩ := ih
        · rw [Edge, Function.update_of_ne hb] at hedge
          exact Or.inl (hin.tail hedge)
        · exact Or.inr ⟨hav, t, ht, htb.tail hedge⟩
  intro a ha
  obtain hin | ⟨hav, t, ht, hta⟩ := split ha
  · exact h a hin
  · exact hdead t ht (hta.trans hav)

end Update

/-! ## Nodes all of whose paths end at a base -/

/-- A node is grounded when it is a base, or has successors and all of them are grounded. -/
inductive Grounded (base : α → Prop) (succ : α → List α) : α → Prop where
  | base {a : α} (h : base a) : Grounded base succ a
  | step {a : α} (hne : succ a ≠ []) (h : ∀ t ∈ succ a, Grounded base succ t) :
    Grounded base succ a

theorem grounded_iff {base : α → Prop} {succ : α → List α} {a : α} (ha : ¬ base a) :
    Grounded base succ a ↔ succ a ≠ [] ∧ ∀ t ∈ succ a, Grounded base succ t := by
  constructor
  · intro h
    cases h with
    | base hb => exact absurd hb ha
    | step hne hall => exact ⟨hne, hall⟩
  · rintro ⟨hne, hall⟩
    exact .step hne hall

/-- In a finite acyclic graph in which only bases lack successors, every node is grounded. -/
theorem grounded_of_acyclic {base : α → Prop} {succ : α → List α} {nodes : Finset α}
    (h : Acyclic succ) (hclosed : Closed succ nodes)
    (hsucc : ∀ a ∈ nodes, base a ∨ succ a ≠ []) {a : α} (ha : a ∈ nodes) :
    Grounded base succ a := by
  obtain ⟨rank, hrank⟩ := h.exists_rank hclosed
  induction hn : rank a using Nat.strong_induction_on generalizing a with
  | _ n ih =>
    obtain hb | hne := hsucc a ha
    · exact .base hb
    · refine .step hne fun t ht => ?_
      exact ih (rank t) (hn ▸ (hrank a ha).2 t ht) (hclosed a ha t ht) rfl

/-- A change at `v` grounds no node less when the new successors of `v` were grounded already. -/
theorem Grounded.update [DecidableEq α] {base : α → Prop} {succ : α → List α} {v a : α}
    {ts : List α} (h : Grounded base succ a)
    (hv : Grounded base succ v → Grounded base (Function.update succ v ts) v) :
    Grounded base (Function.update succ v ts) a := by
  induction h with
  | base hb => exact .base hb
  | @step a hne hall ih =>
    by_cases ha : a = v
    · subst ha
      exact hv (.step hne hall)
    · refine .step ?_ ?_
      · rwa [Function.update_of_ne ha]
      · rw [Function.update_of_ne ha]
        exact ih

/-- What does not reach `v` does not care about its successors. -/
theorem Grounded.congr_of_not_reaches [DecidableEq α] {base : α → Prop} {succ : α → List α}
    {v a : α} {ts : List α} (h : Grounded base succ a) (hv : ¬ Reaches succ a v) :
    Grounded base (Function.update succ v ts) a := by
  induction h with
  | base hb => exact .base hb
  | @step a hne hall ih =>
    have ha : a ≠ v := by
      rintro rfl
      exact hv (.refl a)
    refine .step ?_ ?_
    · rwa [Function.update_of_ne ha]
    · rw [Function.update_of_ne ha]
      intro t ht
      exact ih t ht fun hr => hv (.head ht hr)

/-- What a grounded node reaches is grounded, and never the node itself, when bases have no
successors. -/
theorem Grounded.reaches {base : α → Prop} {succ : α → List α} (hbase : ∀ a, base a → succ a = [])
    {a b : α} (h : Grounded base succ a) (hab : Reaches succ a b) : Grounded base succ b := by
  induction hab with
  | refl => exact h
  | @tail b c _ hedge ih =>
    cases ih with
    | base hb =>
      rw [Edge, hbase b hb] at hedge
      cases hedge
    | step _ hall => exact hall c hedge

theorem Grounded.not_cycle {base : α → Prop} {succ : α → List α}
    (hbase : ∀ a, base a → succ a = []) {a : α} (h : Grounded base succ a) :
    ¬ Relation.TransGen (Edge succ) a a := by
  induction h with
  | @base a hb =>
    intro hcycle
    obtain ⟨t, ht, _⟩ := Relation.TransGen.head'_iff.mp hcycle
    rw [Edge, hbase a hb] at ht
    cases ht
  | @step a _ _ ih =>
    intro hcycle
    obtain ⟨t, ht, hback⟩ := Relation.TransGen.head'_iff.mp hcycle
    exact ih t ht (Relation.TransGen.tail' hback ht)

/-- Successors of bases do not matter. -/
theorem Grounded.congr {base : α → Prop} {succ succ' : α → List α}
    (hsucc : ∀ a, ¬ base a → succ a = succ' a) {a : α} (h : Grounded base succ a) :
    Grounded base succ' a := by
  induction h with
  | base hb => exact .base hb
  | @step a hne hall ih =>
    by_cases hb : base a
    · exact .base hb
    · exact .step (hsucc a hb ▸ hne) fun t ht => ih t (hsucc a hb ▸ ht)

/-- A chain goes from node to successor, and stays where there is none. -/
def Chain (succ : α → List α) (c : Nat → α) : Prop :=
  ∀ n, c (n + 1) ∈ succ (c n) ∨ succ (c n) = [] ∧ c (n + 1) = c n

/-- A node is grounded when every chain from it comes to a base. -/
theorem grounded_iff_chains {base : α → Prop} {succ : α → List α} {a : α} :
    Grounded base succ a ↔ ∀ c, Chain succ c → c 0 = a → ∃ n, base (c n) := by
  classical
  constructor
  · intro h
    induction h with
    | @base a hb =>
      rintro c _ rfl
      exact ⟨0, hb⟩
    | @step a hne _ ih =>
      rintro c hc rfl
      obtain hstep | ⟨hnil, _⟩ := hc 0
      · obtain ⟨n, hn⟩ := ih (c 1) hstep (fun n => c (n + 1)) (fun n => hc (n + 1)) rfl
        exact ⟨n + 1, hn⟩
      · exact absurd hnil hne
  · contrapose!
    intro h
    -- a node that is not grounded has no successor, or one that is not grounded either
    have hnext (b : α) : ∃ t, ¬ Grounded base succ b →
        ¬ Grounded base succ t ∧ (t ∈ succ b ∨ succ b = [] ∧ t = b) := by
      by_cases hnil : succ b = []
      · exact ⟨b, fun hb => ⟨hb, Or.inr ⟨hnil, rfl⟩⟩⟩
      · by_cases hall : ∀ t ∈ succ b, Grounded base succ t
        · exact ⟨b, fun hb => absurd (.step hnil hall) hb⟩
        · push Not at hall
          obtain ⟨t, ht, hng⟩ := hall
          exact ⟨t, fun _ => ⟨hng, Or.inl ht⟩⟩
    choose next hspec using hnext
    have hng (n : Nat) : ¬ Grounded base succ (next^[n] a) := by
      induction n with
      | zero => exact h
      | succ n ih =>
        rw [Function.iterate_succ_apply']
        exact (hspec _ ih).1
    refine ⟨fun n => next^[n] a, ?_, rfl, fun n hb => hng n (.base hb)⟩
    intro n
    simp only [Function.iterate_succ_apply']
    exact (hspec _ (hng n)).2

/-! ## Depth-first search -/

section Dfs
variable [DecidableEq β]

/-- The visited keys after a search from `a`, absent when the depth passes the fuel. -/
def dfs (key : α → β) (succ : α → List α) : Nat → List β → α → Option (List β)
  | 0, _, _ => none
  | fuel + 1, visited, a =>
    (succ a).foldlM
      (fun visited t => if key t ∈ visited then some visited else dfs key succ fuel visited t)
      (key a :: visited)

/-- `visited'` grows `visited` by nodes reached from `starts`, whose successors it has too. -/
structure Explored (key : α → β) (succ : α → List α) (nodes : Finset α) (starts : List α)
    (visited visited' : List β) : Prop where
  grows : visited ⊆ visited'
  reached : ∀ t ∈ starts, key t ∈ visited'
  sound : ∀ k ∈ visited', k ∈ visited ∨ ∃ t ∈ starts, ∃ x, Reaches succ t x ∧ key x = k
  complete : ∀ x ∈ nodes, key x ∈ visited' → key x ∉ visited → ∀ t ∈ succ x, key t ∈ visited'

theorem Explored.cons {key : α → β} {succ : α → List α} {nodes : Finset α} {t : α} {ts : List α}
    {u v w : List β} (h : Explored key succ nodes [t] u v) (h' : Explored key succ nodes ts v w) :
    Explored key succ nodes (t :: ts) u w where
  grows := List.Subset.trans h.grows h'.grows
  reached := by
    intro x hx
    obtain rfl | hx := List.mem_cons.mp hx
    · exact h'.grows (h.reached x (List.mem_singleton_self x))
    · exact h'.reached x hx
  sound := by
    intro k hk
    obtain hv | ⟨x, hx, hreach⟩ := h'.sound k hk
    · obtain hu | ⟨x, hx, hreach⟩ := h.sound k hv
      · exact Or.inl hu
      · rw [List.mem_singleton] at hx
        exact Or.inr ⟨x, by simp [hx], hreach⟩
    · exact Or.inr ⟨x, List.mem_cons_of_mem t hx, hreach⟩
  complete := by
    intro x hx hk hu s hs
    by_cases hv : key x ∈ v
    · exact h'.grows (h.complete x hx hv hu s hs)
    · exact h'.complete x hx hk hv s hs

variable {key : α → β} {succ : α → List α} {nodes : Finset α}

/-- One search explores the graph from its start. -/
theorem dfs_explored (hkey : Set.InjOn key nodes) (hclosed : Closed succ nodes) {fuel : Nat}
    {visited visited' : List β} {a : α} (ha : a ∈ nodes)
    (h : dfs key succ fuel visited a = some visited') :
    Explored key succ nodes [a] visited visited' := by
  induction fuel generalizing visited visited' a with
  | zero => cases h
  | succ fuel ih =>
    have loop (ts : List α) (hts : ∀ t ∈ ts, t ∈ nodes) (u w : List β)
        (hfold : ts.foldlM (fun visited t =>
          if key t ∈ visited then some visited else dfs key succ fuel visited t) u = some w) :
        Explored key succ nodes ts u w := by
      induction ts generalizing u with
      | nil =>
        obtain rfl : u = w := by simpa using hfold
        exact ⟨List.Subset.refl u, by simp, fun k hk => Or.inl hk, fun x _ hk hu => absurd hk hu⟩
      | cons t ts ihts =>
        rw [List.foldlM_cons, Option.bind_eq_bind, Option.bind_eq_some_iff] at hfold
        obtain ⟨v, hv, hrest⟩ := hfold
        have hfirst : Explored key succ nodes [t] u v := by
          split at hv
          · rename_i hmem
            obtain rfl : u = v := by simpa using hv
            exact ⟨List.Subset.refl u, by simpa using hmem, fun k hk => Or.inl hk,
              fun x _ hk hu => absurd hk hu⟩
          · exact ih (hts t List.mem_cons_self) hv
        exact hfirst.cons (ihts (fun x hx => hts x (List.mem_cons_of_mem t hx)) v hrest)
    have hinner := loop (succ a) (hclosed a ha) _ _ h
    refine ⟨?_, ?_, ?_, ?_⟩
    · exact List.Subset.trans (List.subset_cons_self _ _) hinner.grows
    · intro t ht
      obtain rfl := List.mem_singleton.mp ht
      exact hinner.grows List.mem_cons_self
    · intro k hk
      obtain hv | ⟨t, ht, x, hreach, hx⟩ := hinner.sound k hk
      · obtain rfl | hv := List.mem_cons.mp hv
        · exact Or.inr ⟨a, List.mem_singleton_self a, a, .refl a, rfl⟩
        · exact Or.inl hv
      · exact Or.inr ⟨a, List.mem_singleton_self a, x, hreach.head ht, hx⟩
    · intro x hx hk hvisited t ht
      by_cases hxa : key x = key a
      · obtain rfl := hkey hx ha hxa
        exact hinner.reached t ht
      · exact hinner.complete x hx hk (by simp [hxa, hvisited]) t ht

/-- A search that starts from nothing visits the keys of what is reached. -/
theorem mem_dfs_iff (hkey : Set.InjOn key nodes) (hclosed : Closed succ nodes) {fuel : Nat}
    {visited : List β} {a b : α} (ha : a ∈ nodes) (hb : b ∈ nodes)
    (h : dfs key succ fuel [] a = some visited) : key b ∈ visited ↔ Reaches succ a b := by
  have explored := dfs_explored hkey hclosed ha h
  constructor
  · intro hk
    obtain hnil | ⟨t, ht, x, hreach, hx⟩ := explored.sound _ hk
    · cases hnil
    · obtain rfl := List.mem_singleton.mp ht
      obtain rfl := hkey (hreach.closed hclosed ha) hb hx
      exact hreach
  · intro hreach
    induction hreach with
    | refl => exact explored.reached a (List.mem_singleton_self a)
    | @tail b c hab hedge ih =>
      have hbn : b ∈ nodes := Reaches.closed hclosed hab ha
      exact explored.complete b hbn (ih hbn) List.not_mem_nil c hedge

/-- Nothing else is visited. -/
theorem mem_dfs_keys (hkey : Set.InjOn key nodes) (hclosed : Closed succ nodes) {fuel : Nat}
    {visited : List β} {a : α} (ha : a ∈ nodes) (h : dfs key succ fuel [] a = some visited)
    {k : β} : k ∈ visited ↔ ∃ b ∈ nodes, Reaches succ a b ∧ key b = k := by
  constructor
  · intro hk
    obtain hnil | ⟨t, ht, x, hreach, hx⟩ := (dfs_explored hkey hclosed ha h).sound k hk
    · cases hnil
    · obtain rfl := List.mem_singleton.mp ht
      exact ⟨x, hreach.closed hclosed ha, hreach, hx⟩
  · rintro ⟨b, hb, hreach, rfl⟩
    exact (mem_dfs_iff hkey hclosed ha hb h).mpr hreach

/-- A search needs no more depth than there are nodes left to visit. -/
theorem dfs_isSome (hkey : Set.InjOn key nodes) (hclosed : Closed succ nodes) {fuel : Nat}
    {visited : List β} {a : α} (ha : a ∈ nodes) (hnew : key a ∉ visited)
    (hfuel : (nodes.filter fun x => key x ∉ visited).card ≤ fuel) :
    (dfs key succ fuel visited a).isSome = true := by
  induction fuel generalizing visited a with
  | zero =>
    have hmem : a ∈ nodes.filter fun x => key x ∉ visited := Finset.mem_filter.mpr ⟨ha, hnew⟩
    have := Finset.card_pos.mpr ⟨a, hmem⟩
    omega
  | succ fuel ih =>
    have shrinks (u : List β) (hu : key a :: visited ⊆ u) :
        (nodes.filter fun x => key x ∉ u).card ≤ fuel := by
      have hlt : (nodes.filter fun x => key x ∉ u).card <
          (nodes.filter fun x => key x ∉ visited).card := by
        apply Finset.card_lt_card
        rw [Finset.ssubset_iff_of_subset]
        · refine ⟨a, Finset.mem_filter.mpr ⟨ha, hnew⟩, ?_⟩
          simp [hu List.mem_cons_self]
        · intro x hx
          rw [Finset.mem_filter] at hx ⊢
          exact ⟨hx.1, fun hv => hx.2 (hu (List.mem_cons_of_mem _ hv))⟩
      omega
    have loop (ts : List α) (hts : ∀ t ∈ ts, t ∈ nodes) (u : List β)
        (hu : key a :: visited ⊆ u) :
        (ts.foldlM (fun visited t =>
          if key t ∈ visited then some visited else dfs key succ fuel visited t) u).isSome := by
      induction ts generalizing u with
      | nil => rfl
      | cons t ts ihts =>
        have hrest := ihts fun x hx => hts x (List.mem_cons_of_mem t hx)
        rw [List.foldlM_cons, Option.bind_eq_bind]
        by_cases hmem : key t ∈ u
        · rw [if_pos hmem, Option.bind_some]
          exact hrest u hu
        · rw [if_neg hmem]
          obtain ⟨w, hw⟩ := Option.isSome_iff_exists.mp
            (ih (hts t List.mem_cons_self) hmem (shrinks u hu))
          rw [hw, Option.bind_some]
          have grows := (dfs_explored hkey hclosed (hts t List.mem_cons_self) hw).grows
          exact hrest w (List.Subset.trans hu grows)
    exact loop (succ a) (hclosed a ha) _ (List.Subset.refl _)

end Dfs

/-! ## Values by rank -/

/-- A value for every node, when each is computed from those of lower rank. -/
theorem exists_by_rank [Inhabited β] (rank : α → Nat) (step : (α → β) → α → β)
    (hstep : ∀ f g a, (∀ b, rank b < rank a → f b = g b) → step f a = step g a) :
    ∃ f : α → β, ∀ a, f a = step f a := by
  classical
  let below (a : α) (f : (b : α) → rank b < rank a → β) : α → β :=
    fun b => if h : rank b < rank a then f b h else default
  let value : α → β := (measure rank).wf.fix fun a f => step (below a f) a
  refine ⟨value, fun a => ?_⟩
  have hvalue : value a = step (below a fun b _ => value b) a := WellFounded.fix_eq _ _ a
  rw [hvalue]
  apply hstep
  intro b hb
  exact dif_pos hb

end Search
