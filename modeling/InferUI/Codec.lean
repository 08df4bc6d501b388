import Mathlib.Data.BitVec
import Mathlib.Algebra.BigOperators.Group.List.Basic
import Mathlib.Data.List.Pairwise

/-!
# Binary codecs and hash tables

A writer and a reader for a type, with the law that the reader takes back exactly what the
writer gave, whatever follows. And tables whose keys are compared by an equality that need
not be reflexive, such as that of floating point numbers.
-/

/-- A writer with its reader. -/
structure Codec (α : Type) where
  write : α → List UInt8
  read : List UInt8 → Option (α × List UInt8)
  read_write : ∀ a rest, read (write a ++ rest) = some (a, rest)

/-- A list whose size fits a machine word. -/
abbrev Sized (α : Type) := { list : List α // list.length < 2 ^ 64 }

namespace Codec
variable {α β : Type}

/-- The lowest byte first. -/
def toBytes : Nat → Nat → List UInt8
  | 0, _ => []
  | width + 1, n => UInt8.ofNat n :: toBytes width (n / 256)

def ofBytes : List UInt8 → Nat
  | [] => 0
  | b :: bs => b.toNat + 256 * ofBytes bs

@[simp] theorem length_toBytes (width n : Nat) : (toBytes width n).length = width := by
  induction width generalizing n with
  | zero => rfl
  | succ width ih => rw [toBytes, List.length_cons, ih]

theorem ofBytes_toBytes {width n : Nat} (h : n < 256 ^ width) : ofBytes (toBytes width n) = n := by
  induction width generalizing n with
  | zero =>
    rw [Nat.pow_zero, Nat.lt_one_iff] at h
    subst h
    rfl
  | succ width ih =>
    rw [toBytes, ofBytes, ih (Nat.div_lt_of_lt_mul (by rwa [Nat.mul_comm, ← Nat.pow_succ])),
      UInt8.toNat_ofNat', Nat.mod_add_div]

/-- A machine word. -/
def word (width : Nat) : Codec (BitVec (8 * width)) where
  write n := toBytes width n.toNat
  read bytes :=
    if bytes.length < width then none
    else some (BitVec.ofNat _ (ofBytes (bytes.take width)), bytes.drop width)
  read_write n rest := by
    have hn : n.toNat < 256 ^ width := by
      have := n.isLt
      rwa [Nat.pow_mul] at this
    have hlen : ¬ (toBytes width n.toNat ++ rest).length < width := by simp
    rw [if_neg hlen, List.take_left' (length_toBytes _ _), List.drop_left' (length_toBytes _ _),
      ofBytes_toBytes hn, BitVec.ofNat_toNat, BitVec.setWidth_eq]

def byte : Codec UInt8 where
  write b := [b]
  read
    | [] => none
    | b :: rest => some (b, rest)
  read_write _ _ := rfl

def pair (c : Codec α) (d : Codec β) : Codec (α × β) where
  write p := c.write p.1 ++ d.write p.2
  read bytes := (c.read bytes).bind fun (a, bytes) => (d.read bytes).map fun (b, bytes) =>
    ((a, b), bytes)
  read_write p rest := by simp [c.read_write, d.read_write]

variable (c : Codec α)

/-- One after the other, with no mark in between. -/
def writeMany (list : List α) : List UInt8 := list.flatMap c.write

@[simp] theorem writeMany_cons (a : α) (list : List α) :
    c.writeMany (a :: list) = c.write a ++ c.writeMany list := List.flatMap_cons

def readMany : Nat → List UInt8 → Option (List α × List UInt8)
  | 0, bytes => some ([], bytes)
  | n + 1, bytes => (c.read bytes).bind fun (a, bytes) => (readMany n bytes).map fun (as, bytes) =>
    (a :: as, bytes)

theorem readMany_writeMany (list : List α) (rest : List UInt8) :
    c.readMany list.length (c.writeMany list ++ rest) = some (list, rest) := by
  induction list with
  | nil => rfl
  | cons a list ih =>
    rw [List.length_cons, readMany, writeMany_cons, List.append_assoc, c.read_write]
    simp [ih]

/-- `size_t`. -/
def size : Codec (BitVec 64) := word 8

/-- The size, then the elements. -/
def sized : Codec (Sized α) where
  write list := size.write (BitVec.ofNat 64 list.1.length) ++ c.writeMany list.1
  read bytes := (size.read bytes).bind fun (n, bytes) =>
    (c.readMany n.toNat bytes).bind fun (list, bytes) =>
      if h : list.length < 2 ^ 64 then some (⟨list, h⟩, bytes) else none
  read_write list rest := by
    have hn : (BitVec.ofNat 64 list.1.length).toNat = list.1.length := by
      rw [BitVec.toNat_ofNat, Nat.mod_eq_of_lt list.2]
    rw [List.append_assoc, size.read_write]
    simp only [Option.bind_some, hn, c.readMany_writeMany, list.2, ↓reduceDIte, Subtype.coe_eta]

end Codec

/-- An equality on keys as a hash table needs it. It may be reflexive on none of them. -/
structure Per {K : Type} (eq : K → K → Bool) : Prop where
  symm : ∀ j k, eq j k = true → eq k j = true
  trans : ∀ j k l, eq j k = true → eq k l = true → eq j l = true

/-- The entries of a table, with no key twice. -/
structure Table (K V : Type) (eq : K → K → Bool) where
  entries : List (K × V)
  distinct : entries.Pairwise fun e e' => eq e.1 e'.1 = false
  size_lt : entries.length < 2 ^ 64

namespace Table
variable {K V : Type} {eq : K → K → Bool}

def empty : Table K V eq := ⟨[], List.Pairwise.nil, Nat.two_pow_pos 64⟩

def size (t : Table K V eq) : Nat := t.entries.length

def find? (t : Table K V eq) (k : K) : Option V :=
  (t.entries.find? fun e => eq e.1 k).map (·.2)

/-- The entries with the value at a key changed, which is `init` for a new key. -/
def modifyEntries (eq : K → K → Bool) (k : K) (init : V) (f : V → V) :
    List (K × V) → List (K × V)
  | [] => [(k, f init)]
  | e :: es => if eq e.1 k then (e.1, f e.2) :: es else e :: modifyEntries eq k init f es

theorem key_of_mem_modifyEntries {k : K} {init : V} {f : V → V} {entries : List (K × V)}
    {e : K × V} (h : e ∈ modifyEntries eq k init f entries) :
    e.1 = k ∨ ∃ e' ∈ entries, e'.1 = e.1 := by
  induction entries with
  | nil =>
    rw [modifyEntries, List.mem_singleton] at h
    exact Or.inl (congrArg Prod.fst h)
  | cons e' es ih =>
    rw [modifyEntries] at h
    split at h
    · rcases List.mem_cons.mp h with rfl | h
      · exact Or.inr ⟨e', List.mem_cons_self, rfl⟩
      · exact Or.inr ⟨e, List.mem_cons_of_mem _ h, rfl⟩
    · rcases List.mem_cons.mp h with rfl | h
      · exact Or.inr ⟨e, List.mem_cons_self, rfl⟩
      · rcases ih h with h | ⟨e'', hm, he⟩
        · exact Or.inl h
        · exact Or.inr ⟨e'', List.mem_cons_of_mem _ hm, he⟩

theorem distinct_modifyEntries (k : K) (init : V) (f : V → V) {entries : List (K × V)}
    (h : entries.Pairwise fun e e' => eq e.1 e'.1 = false) :
    (modifyEntries eq k init f entries).Pairwise fun e e' => eq e.1 e'.1 = false := by
  induction entries with
  | nil => exact List.pairwise_singleton _ _
  | cons e es ih =>
    obtain ⟨hhead, htail⟩ := List.pairwise_cons.mp h
    rw [modifyEntries]
    split
    · exact List.Pairwise.cons hhead htail
    · rename_i hk
      refine List.Pairwise.cons (fun e' he' => ?_) (ih htail)
      rcases key_of_mem_modifyEntries he' with hkey | ⟨e'', hm, hkey⟩
      · rw [hkey]
        simpa using hk
      · rw [← hkey]
        exact hhead e'' hm

/-- Changing the value at a key; a table that would grow beyond a machine word throws. -/
def modify (t : Table K V eq) (k : K) (init : V) (f : V → V) : Option (Table K V eq) :=
  if h : (modifyEntries eq k init f t.entries).length < 2 ^ 64 then
    some ⟨_, distinct_modifyEntries k init f t.distinct, h⟩
  else none

/-- `emplace`, which leaves a key that is there alone. -/
def emplace (t : Table K V eq) (k : K) (v : V) : Option (Table K V eq) := t.modify k v id

theorem modifyEntries_new {k : K} {init : V} {f : V → V} {entries : List (K × V)}
    (h : ∀ e ∈ entries, eq e.1 k = false) :
    modifyEntries eq k init f entries = entries ++ [(k, f init)] := by
  induction entries with
  | nil => rfl
  | cons e es ih =>
    rw [modifyEntries, if_neg (by simp [h e List.mem_cons_self]),
      ih fun e' he' => h e' (List.mem_cons_of_mem _ he'), List.cons_append]

/-- A new key goes behind the entries that are there. -/
theorem emplace_new {t : Table K V eq} {k : K} {v : V} (h : ∀ e ∈ t.entries, eq e.1 k = false)
    (hsize : t.entries.length + 1 < 2 ^ 64) :
    ∃ t', t.emplace k v = some t' ∧ t'.entries = t.entries ++ [(k, v)] := by
  have hentries : modifyEntries eq k v id t.entries = t.entries ++ [(k, v)] := modifyEntries_new h
  have hlt : (modifyEntries eq k v id t.entries).length < 2 ^ 64 := by simpa [hentries] using hsize
  exact ⟨⟨_, distinct_modifyEntries k v id t.distinct, hlt⟩, dif_pos hlt, hentries⟩

/-- The sum of the values goes up by what is added to one of them. -/
theorem sum_modifyEntries [AddCommMonoid V] (k : K) (n : V) (entries : List (K × V)) :
    ((modifyEntries eq k 0 (· + n) entries).map (·.2)).sum = (entries.map (·.2)).sum + n := by
  induction entries with
  | nil => simp [modifyEntries]
  | cons e es ih =>
    rw [modifyEntries]
    split
    · simp only [List.map_cons, List.sum_cons]
      exact add_right_comm _ _ _
    · simp only [List.map_cons, List.sum_cons, ih]
      exact (add_assoc _ _ _).symm

theorem find?_eq_some_iff (heq : Per eq) {t : Table K V eq} {k : K} {v : V} :
    t.find? k = some v ↔ ∃ e ∈ t.entries, eq e.1 k = true ∧ e.2 = v := by
  have hsymm : Std.Symm fun e e' : K × V => eq e.1 e'.1 = false := ⟨fun e e' h => by
    by_contra hc
    have := heq.symm _ _ (by simpa using hc)
    simp [h] at this⟩
  have hfound {e : K × V} (he : t.entries.find? (fun e => eq e.1 k) = some e) :
      e ∈ t.entries ∧ eq e.1 k = true :=
    ⟨List.mem_of_find?_eq_some he, List.find?_some (p := fun e : K × V => eq e.1 k) he⟩
  rw [find?, Option.map_eq_some_iff]
  constructor
  · rintro ⟨e, he, rfl⟩
    exact ⟨e, (hfound he).1, (hfound he).2, rfl⟩
  · rintro ⟨e, he, hk, rfl⟩
    cases hf : t.entries.find? (fun e => eq e.1 k) with
    | none =>
      have := List.find?_eq_none.mp hf e he
      simp [hk] at this
    | some e' =>
      obtain ⟨he', hk'⟩ := hfound hf
      refine ⟨e', rfl, ?_⟩
      by_contra hne
      have hdiff : e' ≠ e := fun h => hne (congrArg Prod.snd h)
      have hfalse := t.distinct.forall he' he hdiff
      have htrue := heq.trans _ _ _ hk' (heq.symm _ _ hk)
      simp [hfalse] at htrue

/-- What is found does not depend on the order of the entries. -/
theorem find?_perm (heq : Per eq) {t t' : Table K V eq} (h : t.entries.Perm t'.entries) (k : K) :
    t.find? k = t'.find? k := by
  apply Option.ext
  intro v
  rw [find?_eq_some_iff heq, find?_eq_some_iff heq]
  simp only [h.mem_iff]

end Table
