import InferUI.RecordIO

/-!
# Damaged record files

The Python `RecordReader` on any file: one that is cut, or is no record file at all. What raises
is part of the result, also where the compression library does, and a call that is still in its
loop when its fuel is spent has no result.
-/

namespace InferUI.DamagedFile
open Varint (Bytes)
open RecordIO (Source signed signed_size signed_end records records_cons)

inductive Error where
  /-- `six.indexbytes` on no bytes. -/
  | indexError
  /-- `_DecodeError`, a name that the module does not define. -/
  | nameError
  | assertionError
  /-- `zlib.error`. -/
  | zlibError
  /-- What `ParseFromString` raises. -/
  | decodeError
  deriving DecidableEq, Repr

/-- `decompressobj` of the `zlib` module; `none` where it raises. -/
structure Inflate where
  Decompressor : Type
  decompressobj : Decompressor
  decompress : Decompressor → Bytes → Option (Decompressor × Bytes)
  flush : Decompressor → Option Bytes

variable {z : Inflate}

/-! ## Reading -/

structure ZlibReader (z : Inflate) where
  zip : Option z.Decompressor
  /-- What is still to come of the file. -/
  f : Bytes
  data : Bytes

def blocksize : Nat := 16384

theorem length_drop_blocksize {f : Bytes} (h : f ≠ []) :
    (f.drop blocksize).length < f.length := by
  have hpos := List.length_pos_iff.mpr h
  rw [List.length_drop, blocksize]
  omega

namespace ZlibReader

/-- The loop of `_fill`. -/
def fillLoop (size : Nat) (d : z.Decompressor) (f data : Bytes) : Except Error (ZlibReader z) :=
  if data.length < size then
    if f = [] then
      match z.flush d with
      | some out => .ok ⟨none, [], data ++ out⟩
      | none => .error .zlibError
    else
      match z.decompress d (f.take blocksize) with
      | some (d, out) => fillLoop size d (f.drop blocksize) (data ++ out)
      | none => .error .zlibError
  else .ok ⟨some d, f, data⟩
termination_by f.length
decreasing_by exact length_drop_blocksize ‹_›

def fill (size : Nat) (s : ZlibReader z) : Except Error (ZlibReader z) :=
  match s.zip with
  | some d => fillLoop size d s.f s.data
  | none => .ok s

def read (size : Nat) (s : ZlibReader z) : Except Error (Bytes × ZlibReader z) :=
  if 0 < size then
    match s.fill size with
    | .ok s => .ok (s.data.take size, { s with data := s.data.drop size })
    | .error e => .error e
  else .error .assertionError

end ZlibReader

/-- The stream of a `RecordReader`: what is still to come of an open file, or a `ZlibReader`. -/
inductive Stream (z : Inflate)
  | file (rest : Bytes)
  | zlib (reader : ZlibReader z)

/-- The constructor of `RecordReader`. -/
def openStream (z : Inflate) (compressed : Bool) (file : Bytes) : Stream z :=
  if compressed then .zlib ⟨some z.decompressobj, file, []⟩ else .file file

def Stream.read (size : Nat) : Stream z → Except Error (Bytes × Stream z)
  | file rest => .ok (rest.take size, file (rest.drop size))
  | zlib reader =>
    match reader.read size with
    | .ok (out, reader) => .ok (out, zlib reader)
    | .error e => .error e

/-- The loop of `DecodeVarintFromStream`. -/
def decodeGroups (shift result : Nat) (s : Stream z) : Except Error (Int × Stream z) :=
  match s.read 1 with
  | .ok (b :: _, s) =>
    let result := result ||| ((b.toNat &&& 0x7f) <<< shift)
    if b.toNat &&& 0x80 = 0 then .ok (signed result, s)
    else if shift + 7 ≥ 32 then .error .nameError
    else decodeGroups (shift + 7) result s
  | .ok ([], _) => .error .indexError
  | .error e => .error e
termination_by 32 - shift

def decodeVarintFromStream (s : Stream z) : Except Error (Int × Stream z) := decodeGroups 0 0 s

/-- The loop that reads on while the message is incomplete. -/
def readOn : Nat → Nat → Bytes → Stream z → Option (Except Error (Bytes × Stream z))
  | 0, size, buf, s => if buf.length < size then none else some (.ok (buf, s))
  | fuel + 1, size, buf, s =>
    if buf.length < size then
      match s.read (size - buf.length) with
      | .ok (more, s) => readOn fuel size (buf ++ more) s
      | .error e => some (.error e)
    else some (.ok (buf, s))

variable {Msg : Type} (parse : Bytes → Option Msg)

/-- `RecordReader.read`: the message, or nothing for `False`. -/
def readRecord (fuel : Nat) (s : Stream z) : Option (Except Error (Option Msg × Stream z)) :=
  match decodeVarintFromStream s with
  | .error e => some (.error e)
  | .ok (size, s) =>
    if size < 0 then some (.ok (none, s))
    else
      match s.read size.toNat with
      | .error e => some (.error e)
      | .ok (buf, s) =>
        (readOn fuel size.toNat buf s).map fun complete =>
          match complete with
          | .error e => .error e
          | .ok (buf, s) =>
            match parse buf with
            | some msg => .ok (some msg, s)
            | none => .error .decodeError

/-- The call ends: it returns or raises. -/
def Ends (s : Stream z) : Prop := ∃ fuel, (readRecord parse fuel s).isSome

/-! ## What is still to come -/

/-- What decompressing the rest of the file gives; `none` where the library raises. -/
def inflateAll (d : z.Decompressor) (f : Bytes) : Option Bytes :=
  if f = [] then z.flush d
  else
    match z.decompress d (f.take blocksize) with
    | some (d, out) => (inflateAll d (f.drop blocksize)).map (out ++ ·)
    | none => none
termination_by f.length
decreasing_by exact length_drop_blocksize ‹_›

def ZlibReader.remaining (s : ZlibReader z) : Option Bytes :=
  match s.zip with
  | none => some s.data
  | some d => (inflateAll d s.f).map (s.data ++ ·)

/-- The bytes up to the end of the stream; `none` where the library raises before it. -/
def Stream.remaining : Stream z → Option Bytes
  | file rest => some rest
  | zlib reader => reader.remaining

/-- The stream holds the size of a message and ends, with no error of the library, before the
message does. -/
def CutShort (s : Stream z) : Prop :=
  ∃ bytes n body, s.remaining = some bytes ∧ Varint.decode bytes = some (n, body) ∧
    bytes.length ≤ body.length + 5 ∧ n < 2 ^ 31 ∧ body.length < n

namespace ZlibReader

theorem fillLoop_ok {size : Nat} {d : z.Decompressor} {f data : Bytes} {s : ZlibReader z}
    (h : fillLoop size d f data = .ok s) :
    s.remaining = (inflateAll d f).map (data ++ ·) ∧ (s.data.length < size → s.zip = none) := by
  fun_induction fillLoop size d f data with
  | case1 d data hlt out hflush =>
    obtain rfl := Except.ok.inj h
    rw [inflateAll, if_pos rfl, hflush]
    exact ⟨rfl, fun _ => rfl⟩
  | case2 => cases h
  | case3 d f data hlt hf d' out hout ih =>
    obtain ⟨hremaining, hzip⟩ := ih h
    rw [inflateAll, if_neg hf, hout]
    refine ⟨?_, hzip⟩
    rw [hremaining, Option.map_map]
    simp only [Function.comp_def, List.append_assoc]
  | case4 => cases h
  | case5 d f data hle =>
    obtain rfl := Except.ok.inj h
    exact ⟨rfl, fun hlt => absurd hlt hle⟩

theorem fillLoop_error {size : Nat} {d : z.Decompressor} {f data : Bytes} {e : Error}
    (h : fillLoop size d f data = .error e) : inflateAll d f = none := by
  fun_induction fillLoop size d f data with
  | case1 => cases h
  | case2 d data hlt hflush => rw [inflateAll, if_pos rfl, hflush]
  | case3 d f data hlt hf d' out hout ih =>
    rw [inflateAll, if_neg hf, hout]
    simp only [ih h, Option.map_none]
  | case4 d f data hlt hf hraise => rw [inflateAll, if_neg hf, hraise]
  | case5 => cases h

/-- Filling changes nothing of what is to come, and stops early only at the end of the file. -/
theorem fill_ok {size : Nat} {s s' : ZlibReader z} (h : s.fill size = .ok s') :
    s'.remaining = s.remaining ∧ (s'.data.length < size → s'.zip = none) := by
  unfold fill at h
  split at h
  · rename_i d hzip
    obtain ⟨hremaining, hend⟩ := fillLoop_ok h
    refine ⟨?_, hend⟩
    rw [hremaining, remaining, hzip]
  · rename_i hzip
    obtain rfl := Except.ok.inj h
    exact ⟨rfl, fun _ => hzip⟩

theorem fill_error {size : Nat} {s : ZlibReader z} {e : Error} (h : s.fill size = .error e) :
    s.remaining = none := by
  unfold fill at h
  split at h
  · rename_i d hzip
    simp only [remaining, hzip, fillLoop_error h, Option.map_none]
  · cases h

theorem remaining_split (s : ZlibReader z) (size : Nat) :
    s.remaining = ({ s with data := s.data.drop size } : ZlibReader z).remaining.map
      (s.data.take size ++ ·) := by
  cases hzip : s.zip <;>
    simp [remaining, hzip, Function.comp_def, ← List.append_assoc]

end ZlibReader

namespace Stream

theorem zlib_read_ok {size : Nat} {reader : ZlibReader z} {s : Stream z} {out : Bytes}
    (h : (zlib reader).read size = .ok (out, s)) :
    ∃ filled, reader.fill size = .ok filled ∧ out = filled.data.take size ∧
      s = zlib { filled with data := filled.data.drop size } := by
  simp only [read, ZlibReader.read] at h
  by_cases hpos : 0 < size
  · cases hfill : reader.fill size with
    | ok filled =>
      simp only [if_pos hpos, hfill] at h
      obtain ⟨rfl, rfl⟩ := Prod.mk.inj (Except.ok.inj h)
      exact ⟨filled, rfl, rfl, rfl⟩
    | error e => simp [hpos, hfill] at h
  · simp [hpos] at h

/-- A read gives the next bytes, and fewer than asked for only at the end. -/
theorem read_ok {size : Nat} {s s' : Stream z} {out : Bytes} (h : s.read size = .ok (out, s')) :
    s.remaining = s'.remaining.map (out ++ ·) ∧ out.length ≤ size ∧
      (out.length < size → s'.remaining = some []) := by
  cases s with
  | file rest =>
    obtain ⟨rfl, rfl⟩ := Prod.mk.inj (Except.ok.inj h)
    refine ⟨by simp [remaining], List.length_take_le _ _, ?_⟩
    intro hlt
    rw [List.length_take] at hlt
    rw [remaining, List.drop_eq_nil_of_le (by omega)]
  | zlib reader =>
    obtain ⟨filled, hfill, rfl, rfl⟩ := zlib_read_ok h
    obtain ⟨hremaining, hend⟩ := ZlibReader.fill_ok hfill
    refine ⟨hremaining.symm.trans (filled.remaining_split size), List.length_take_le _ _, ?_⟩
    intro hlt
    rw [List.length_take] at hlt
    have hzip := hend (by omega)
    simp only [remaining, ZlibReader.remaining, hzip]
    rw [List.drop_eq_nil_of_le (by omega)]

theorem read_error {size : Nat} {s : Stream z} {e : Error} (hpos : 0 < size)
    (h : s.read size = .error e) : s.remaining = none := by
  cases s with
  | file rest => cases h
  | zlib reader =>
    simp only [read, ZlibReader.read, if_pos hpos] at h
    cases hfill : reader.fill size with
    | ok filled => simp [hfill] at h
    | error e => exact ZlibReader.fill_error hfill

/-- What is asked for and still there is read. -/
theorem read_exact {out rest : Bytes} {s : Stream z} (hs : s.remaining = some (out ++ rest))
    (hne : out ≠ []) : ∃ s', s.read out.length = .ok (out, s') ∧ s'.remaining = some rest := by
  have hpos := List.length_pos_iff.mpr hne
  cases hread : s.read out.length with
  | error e =>
    rw [read_error hpos hread] at hs
    cases hs
  | ok result =>
    obtain ⟨out', s'⟩ := result
    obtain ⟨hsplit, hle, hend⟩ := read_ok hread
    obtain ⟨rest', hrest, happend⟩ := Option.map_eq_some_iff.mp (hsplit.symm.trans hs)
    have hlength : out'.length = out.length := by
      by_contra hshort
      rw [hend (by omega), Option.some.injEq] at hrest
      have htotal := congrArg List.length happend
      rw [← hrest, List.append_nil, List.length_append] at htotal
      omega
    obtain ⟨rfl, rfl⟩ := List.append_inj happend hlength
    exact ⟨s', rfl, hrest⟩

end Stream

/-! ## The size -/

/-- One round of the loop. -/
theorem decodeGroups_step {shift result : Nat} {b : UInt8} {s s' : Stream z}
    (hread : s.read 1 = .ok ([b], s')) (hresult : result < 2 ^ shift) :
    decodeGroups shift result s =
      if b.toNat < 128 then .ok (signed (result + 2 ^ shift * b.toNat), s')
      else if shift + 7 ≥ 32 then .error .nameError
      else decodeGroups (shift + 7) (result + 2 ^ shift * (b.toNat % 128)) s' := by
  have hhigh : (b.toNat &&& 0x80 = 0) = (b.toNat < 128) :=
    propext (Varint.and_high (UInt8.toNat_lt b))
  rw [decodeGroups, hread]
  simp only [hhigh, Varint.and_mask, Varint.or_shift hresult]
  split
  · rename_i hsmall
    rw [Nat.mod_eq_of_lt hsmall]
  · rfl

/-- A size that is read is a varint of at most five groups. -/
theorem decodeGroups_ok {shift result : Nat} {size : Int} {body : Bytes} {s s' : Stream z}
    (h : decodeGroups shift result s = .ok (size, s')) (hbody : s'.remaining = some body)
    (hresult : result < 2 ^ shift) (hshift : shift % 7 = 0) (hle : shift ≤ 28) :
    ∃ bytes n, s.remaining = some bytes ∧ Varint.decode bytes = some (n, body) ∧
      shift + 7 * bytes.length ≤ 7 * body.length + 35 ∧ size = signed (result + 2 ^ shift * n) := by
  induction hrounds : 32 - shift using Nat.strong_induction_on generalizing shift result s with
  | _ rounds ih =>
    cases hread : s.read 1 with
    | error e =>
      rw [decodeGroups, hread] at h
      cases h
    | ok read =>
      obtain ⟨out, next⟩ := read
      obtain ⟨hsplit, hlen, _⟩ := Stream.read_ok hread
      cases out with
      | nil =>
        rw [decodeGroups, hread] at h
        cases h
      | cons b out =>
        obtain rfl : out = [] := List.eq_nil_of_length_eq_zero (by simpa using hlen)
        rw [decodeGroups_step hread hresult] at h
        split at h
        · rename_i hsmall
          obtain ⟨rfl, rfl⟩ := Prod.mk.inj (Except.ok.inj h)
          refine ⟨b :: body, b.toNat, ?_, ?_, ?_, rfl⟩
          · rw [hsplit, hbody]
            rfl
          · rw [Varint.decode, if_pos hsmall]
          · rw [List.length_cons]
            omega
        · rename_i hbig
          split at h
          · cases h
          · obtain ⟨bytes, n, hbytes, hdecode, hlength, rfl⟩ := ih (32 - (shift + 7)) (by omega) h
              (Varint.group_lt hresult b.toNat) (by omega) (by omega) rfl
            refine ⟨b :: bytes, b.toNat % 128 + 128 * n, ?_, ?_, ?_, ?_⟩
            · rw [hsplit, hbytes]
              rfl
            · rw [Varint.decode, if_neg hbig, hdecode, Option.map_some]
            · rw [List.length_cons]
              omega
            · rw [Varint.group_sum]

/-- A varint of at most five groups is read. -/
theorem decodeGroups_of_decode {shift result n : Nat} {bytes body : Bytes} {s : Stream z}
    (hs : s.remaining = some bytes) (hdecode : Varint.decode bytes = some (n, body))
    (hlength : shift + 7 * bytes.length ≤ 7 * body.length + 35)
    (hresult : result < 2 ^ shift) :
    ∃ s', decodeGroups shift result s = .ok (signed (result + 2 ^ shift * n), s') ∧
      s'.remaining = some body := by
  induction bytes generalizing shift result n s with
  | nil => cases hdecode
  | cons b bytes ih =>
    obtain ⟨next, hread, hnext⟩ := Stream.read_exact (List.singleton_append ▸ hs) (by simp)
    rw [decodeGroups_step hread hresult]
    rw [Varint.decode] at hdecode
    split at hdecode
    · rename_i hsmall
      obtain ⟨rfl, rfl⟩ := Prod.mk.inj (Option.some.inj hdecode)
      exact ⟨next, if_pos hsmall, hnext⟩
    · rename_i hbig
      obtain ⟨⟨m, rest⟩, hrest, hfound⟩ := Option.map_eq_some_iff.mp hdecode
      simp only [Prod.mk.injEq] at hfound
      obtain ⟨rfl, rfl⟩ := hfound
      rw [List.length_cons] at hlength
      have hmore := Varint.length_of_decode hrest
      obtain ⟨s', hgroups, hs'⟩ := ih hnext hrest (by omega) (Varint.group_lt hresult b.toNat)
      rw [Varint.group_sum] at hgroups
      refine ⟨s', ?_, hs'⟩
      rw [if_neg hbig, if_neg (by omega), hgroups]

/-- Where there is no varint, nothing is read. -/
theorem decodeGroups_error {shift result : Nat} {bytes : Bytes} {s : Stream z}
    (hs : s.remaining = some bytes) (hdecode : Varint.decode bytes = none)
    (hresult : result < 2 ^ shift) : ∃ e, decodeGroups shift result s = .error e := by
  induction bytes generalizing shift result s with
  | nil =>
    cases hread : s.read 1 with
    | error e => exact ⟨e, by rw [decodeGroups, hread]⟩
    | ok read =>
      obtain ⟨out, next⟩ := read
      obtain ⟨hsplit, _, _⟩ := Stream.read_ok hread
      obtain ⟨rest, _, happend⟩ := Option.map_eq_some_iff.mp (hsplit.symm.trans hs)
      obtain ⟨rfl, _⟩ := List.append_eq_nil_iff.mp happend
      exact ⟨.indexError, by rw [decodeGroups, hread]⟩
  | cons b bytes ih =>
    obtain ⟨next, hread, hnext⟩ := Stream.read_exact (List.singleton_append ▸ hs) (by simp)
    rw [Varint.decode] at hdecode
    split at hdecode
    · cases hdecode
    · rename_i hbig
      rw [decodeGroups_step hread hresult, if_neg hbig]
      split
      · exact ⟨_, rfl⟩
      · exact ih hnext (Option.map_eq_none_iff.mp hdecode) (Varint.group_lt hresult b.toNat)

theorem decodeVarint_ok {size : Int} {body : Bytes} {s s' : Stream z}
    (h : decodeVarintFromStream s = .ok (size, s')) (hbody : s'.remaining = some body) :
    ∃ bytes n, s.remaining = some bytes ∧ Varint.decode bytes = some (n, body) ∧
      bytes.length ≤ body.length + 5 ∧ size = signed n := by
  have hresult : 0 < 2 ^ 0 := by decide
  obtain ⟨bytes, n, hs, hdecode, hlength, rfl⟩ :=
    decodeGroups_ok h hbody hresult rfl (by decide)
  refine ⟨bytes, n, hs, hdecode, by omega, ?_⟩
  rw [Nat.zero_add, Nat.pow_zero, Nat.one_mul]

theorem decodeVarint_of_decode {n : Nat} {bytes body : Bytes} {s : Stream z}
    (hs : s.remaining = some bytes) (hdecode : Varint.decode bytes = some (n, body))
    (hlength : bytes.length ≤ body.length + 5) :
    ∃ s', decodeVarintFromStream s = .ok (signed n, s') ∧ s'.remaining = some body := by
  have hresult : 0 < 2 ^ 0 := by decide
  obtain ⟨s', hgroups, hs'⟩ := decodeGroups_of_decode hs hdecode (by omega) hresult
  rw [Nat.zero_add, Nat.pow_zero, Nat.one_mul] at hgroups
  exact ⟨s', hgroups, hs'⟩

/-- A size below 2^32 is written in at most five groups. -/
theorem decodeVarint_encode {n : Nat} {body : Bytes} {s : Stream z}
    (hs : s.remaining = some (Varint.encode n ++ body)) (hn : n < 2 ^ 32) :
    ∃ s', decodeVarintFromStream s = .ok (signed n, s') ∧ s'.remaining = some body := by
  have hgroups := Varint.length_encode_le (n := n) (k := 4) (by omega)
  refine decodeVarint_of_decode hs (Varint.decode_encode n body) ?_
  rw [List.length_append]
  omega

theorem signed_neg {n : Nat} (h : 2 ^ 31 ≤ n) : signed n < 0 := by
  have lor_negSucc (m : Int) (k : Nat) : Int.lor m (Int.negSucc k) < 0 := by
    cases m <;> exact Int.negSucc_lt_zero _
  rw [signed, if_pos (by omega)]
  exact lor_negSucc _ _

/-! ## The loop of `read` -/

/-- Where the stream ends before the message, the loop goes on reading nothing. -/
theorem readOn_none {size : Nat} {buf bytes : Bytes} {s : Stream z}
    (hremaining : s.remaining = some bytes) (hlt : buf.length + bytes.length < size) (fuel : Nat) :
    readOn fuel size buf s = none := by
  induction fuel generalizing buf bytes s with
  | zero => rw [readOn, if_pos (by omega)]
  | succ fuel ih =>
    rw [readOn, if_pos (by omega)]
    cases hread : s.read (size - buf.length) with
    | error e =>
      have hraise := Stream.read_error (by omega) hread
      rw [hremaining] at hraise
      cases hraise
    | ok result =>
      obtain ⟨more, s'⟩ := result
      obtain ⟨hsplit, _, _⟩ := Stream.read_ok hread
      obtain ⟨bytes', hbytes', hmore⟩ := Option.map_eq_some_iff.mp (hsplit.symm.trans hremaining)
      refine ih hbytes' ?_
      rw [← hmore, List.length_append] at hlt
      rw [List.length_append]
      omega

/-- Elsewhere one more read completes the message, or raises. -/
theorem readOn_isSome {size : Nat} {buf : Bytes} {s : Stream z}
    (h : ∀ bytes, s.remaining = some bytes → size ≤ buf.length + bytes.length) :
    (readOn 1 size buf s).isSome := by
  rw [readOn]
  by_cases hlt : buf.length < size
  · rw [if_pos hlt]
    cases hread : s.read (size - buf.length) with
    | error e => rfl
    | ok result =>
      obtain ⟨more, s'⟩ := result
      obtain ⟨hsplit, _, hend⟩ := Stream.read_ok hread
      have hdone : ¬ (buf ++ more).length < size := by
        intro hshort
        rw [List.length_append] at hshort
        rw [hend (by omega), Option.map_some, List.append_nil] at hsplit
        have := h more hsplit
        omega
      simp only [readOn, if_neg hdone, Option.isSome_some]
  · rw [if_neg hlt]
    rfl

/-- Where a message is cut short, no fuel is enough. -/
theorem CutShort.readRecord_none {s : Stream z} (h : CutShort s) (fuel : Nat) :
    readRecord parse fuel s = none := by
  obtain ⟨bytes, n, body, hs, hdecode, hlength, hn, hshort⟩ := h
  obtain ⟨s₁, hsize, hs₁⟩ := decodeVarint_of_decode hs hdecode hlength
  rw [signed_size hn] at hsize
  have hnonneg : ¬ (n : Int) < 0 := by omega
  simp only [readRecord, hsize, if_neg hnonneg, Int.toNat_natCast]
  cases hread : s₁.read n with
  | error e =>
    rw [Stream.read_error (by omega) hread] at hs₁
    cases hs₁
  | ok result =>
    obtain ⟨buf, s₂⟩ := result
    obtain ⟨hsplit, _, _⟩ := Stream.read_ok hread
    obtain ⟨more, hmore, happend⟩ := Option.map_eq_some_iff.mp (hsplit.symm.trans hs₁)
    rw [← happend, List.length_append] at hshort
    simp only [readOn_none hmore hshort fuel, Option.map_none]

/-- Elsewhere the stream holds all that the first read has left to read. -/
theorem complete_of_not_cutShort {size : Int} {buf : Bytes} {s s₁ s₂ : Stream z}
    (hcut : ¬ CutShort s) (hsize : decodeVarintFromStream s = .ok (size, s₁)) (hnonneg : ¬ size < 0)
    (hread : s₁.read size.toNat = .ok (buf, s₂)) {more : Bytes} (hmore : s₂.remaining = some more) :
    size.toNat ≤ buf.length + more.length := by
  by_contra hshort
  obtain ⟨hsplit, _, _⟩ := Stream.read_ok hread
  rw [hmore, Option.map_some] at hsplit
  obtain ⟨bytes, n, hs, hdecode, hlength, rfl⟩ := decodeVarint_ok hsize hsplit
  have hn : n < 2 ^ 31 := by
    by_contra hbig
    exact hnonneg (signed_neg (Nat.le_of_not_lt hbig))
  rw [signed_size hn, Int.toNat_natCast] at hshort
  refine hcut ⟨bytes, n, buf ++ more, hs, hdecode, hlength, hn, ?_⟩
  rw [List.length_append]
  omega

/-- A call ends unless the file does inside a message whose size it has read. -/
theorem ends_iff (s : Stream z) : Ends parse s ↔ ¬ CutShort s := by
  constructor
  · rintro ⟨fuel, hends⟩ hcut
    rw [hcut.readRecord_none, Option.isSome_none] at hends
    cases hends
  · intro hcut
    refine ⟨1, ?_⟩
    unfold readRecord
    split
    · rfl
    · rename_i size s₁ hsize
      split
      · rfl
      · rename_i hnonneg
        split
        · rfl
        · rename_i buf s₂ hread
          rw [Option.isSome_map]
          exact readOn_isSome fun _ => complete_of_not_cutShort hcut hsize hnonneg hread

/-! ## A library that never raises -/

section Intact
variable {lib : RecordIO.Zlib}

abbrev Inflate.ofZlib (lib : RecordIO.Zlib) : Inflate where
  Decompressor := lib.Decompressor
  decompressobj := lib.decompressobj
  decompress d chunk := some (lib.decompress d chunk)
  flush d := some (lib.flush d)

/-- The blocks in which `_fill` reads the file. -/
def blocks (f : Bytes) : List Bytes :=
  if f = [] then [] else f.take blocksize :: blocks (f.drop blocksize)
termination_by f.length
decreasing_by exact length_drop_blocksize ‹_›

def Stream.toSource : Stream (.ofZlib lib) → Source lib
  | file rest => .file (if rest = [] then [] else [rest])
  | zlib reader => .zlib (blocks reader.f) reader.zip reader.data

/-- A result without what it raises. -/
def forget {α : Type} : Except Error (α × Stream (.ofZlib lib)) → Option (α × Source lib)
  | .ok (a, s) => some (a, s.toSource)
  | .error _ => none

theorem blocks_nil : blocks [] = [] := by rw [blocks, if_pos rfl]

theorem blocks_of_ne {f : Bytes} (h : f ≠ []) :
    blocks f = f.take blocksize :: blocks (f.drop blocksize) := by
  rw [blocks, if_neg h]

theorem fillLoop_toSource (size : Nat) (d : (Inflate.ofZlib lib).Decompressor) (f data : Bytes) :
    ∃ reader, ZlibReader.fillLoop size d f data = .ok reader ∧
      Source.fill size (blocks f) d data = (Stream.zlib reader).toSource := by
  induction hlength : f.length using Nat.strong_induction_on generalizing d f data with
  | _ length ih =>
    rw [ZlibReader.fillLoop]
    by_cases hlt : data.length < size
    · rw [if_pos hlt]
      by_cases hf : f = []
      · subst hf
        rw [blocks_nil, if_pos rfl, Source.fill, if_pos hlt]
        refine ⟨_, rfl, ?_⟩
        rw [Stream.toSource, blocks_nil]
      · rw [if_neg hf, blocks_of_ne hf, Source.fill, if_pos hlt]
        exact ih _ (hlength ▸ length_drop_blocksize hf) _ _ _ rfl
    · rw [if_neg hlt]
      refine ⟨_, rfl, ?_⟩
      rw [Stream.toSource]
      cases blocks f <;> rw [Source.fill, if_neg hlt]

theorem read_toSource (size : Nat) (s : Stream (.ofZlib lib)) :
    s.toSource.read size = forget (s.read size) := by
  cases s with
  | file rest =>
    by_cases hrest : rest = []
    · subst hrest
      simp [Stream.toSource, Source.read, Stream.read, forget]
    · simp only [Stream.toSource, if_neg hrest, Source.read, Stream.read, forget]
      by_cases hlt : size < rest.length
      · have hdrop : rest.drop size ≠ [] := by simpa using hlt
        rw [if_pos hlt, if_neg hdrop]
      · rw [if_neg hlt, List.drop_eq_nil_of_le (Nat.le_of_not_lt hlt), if_pos rfl,
          List.take_of_length_le (Nat.le_of_not_lt hlt)]
  | zlib reader =>
    obtain ⟨zip, f, data⟩ := reader
    by_cases hpos : 0 < size
    · cases zip with
      | none =>
        simp [Stream.toSource, Source.read, Stream.read, ZlibReader.read, ZlibReader.fill,
          hpos, forget]
      | some d =>
        obtain ⟨filled, hfill, hsource⟩ := fillLoop_toSource size d f data
        simp [Stream.toSource, Source.read, Stream.read, ZlibReader.read, ZlibReader.fill,
          hpos, forget, hfill, hsource]
    · simp [Stream.toSource, Source.read, Stream.read, ZlibReader.read, hpos, forget]

theorem decodeGroups_toSource (shift result : Nat) (s : Stream (.ofZlib lib)) :
    RecordIO.decodeGroups shift result s.toSource = forget (decodeGroups shift result s) := by
  induction hrounds : 32 - shift using Nat.strong_induction_on generalizing shift result s with
  | _ rounds ih =>
    rw [decodeGroups, RecordIO.decodeGroups, read_toSource]
    cases s.read 1 with
    | error e => rfl
    | ok read =>
      obtain ⟨out, next⟩ := read
      cases out with
      | nil => rfl
      | cons b out =>
        simp only [forget]
        split
        · rfl
        · split
          · rfl
          · exact ih (32 - (shift + 7)) (by omega) _ _ next rfl

theorem readOn_toSource (fuel size : Nat) (buf : Bytes) (s : Stream (.ofZlib lib)) :
    RecordIO.readOn fuel size buf s.toSource = (readOn fuel size buf s).bind forget := by
  induction fuel generalizing buf s with
  | zero =>
    rw [readOn, RecordIO.readOn]
    split <;> rfl
  | succ fuel ih =>
    rw [readOn, RecordIO.readOn, read_toSource]
    split
    · cases s.read (size - buf.length) with
      | error e => rfl
      | ok result => exact ih (buf ++ result.1) result.2
    · rfl

theorem readRecord_toSource (fuel : Nat) (s : Stream (.ofZlib lib)) :
    RecordIO.readRecord parse fuel s.toSource = (readRecord parse fuel s).bind forget := by
  rw [readRecord, RecordIO.readRecord, RecordIO.decodeVarintFromStream, decodeGroups_toSource,
    decodeVarintFromStream]
  cases decodeGroups 0 0 s with
  | error e => rfl
  | ok result =>
    obtain ⟨size, s₁⟩ := result
    simp only [forget, Option.bind_eq_bind, Option.bind_some]
    split
    · rfl
    · rw [read_toSource]
      cases s₁.read size.toNat with
      | error e => rfl
      | ok result =>
        obtain ⟨buf, s₂⟩ := result
        simp only [forget, Option.bind_some, readOn_toSource]
        cases readOn fuel size.toNat buf s₂ with
        | none => rfl
        | some result =>
          cases result with
          | error e => rfl
          | ok result =>
            simp only [Option.bind_some, forget, Option.map_some]
            cases parse result.1 <;> rfl

end Intact

/-! ## Files that are cut -/

section Cut

/-- A call that returns, and what it leaves of the stream. -/
def Call (s s' : Stream z) : Prop := ∃ fuel msg, readRecord parse fuel s = some (.ok (msg, s'))

/-- The end of a prefix of this length lies in a message, behind its size. -/
def CutInside : List Bytes → Nat → Prop
  | [], _ => False
  | payload :: payloads, k =>
    let start := (Varint.encode payload.length).length
    (start ≤ k ∧ k < start + payload.length) ∨
      (start + payload.length ≤ k ∧ CutInside payloads (k - (start + payload.length)))

theorem readRecord_error {bytes : Bytes} {s : Stream z} (hs : s.remaining = some bytes)
    (hdecode : Varint.decode bytes = none) :
    ∃ e, ∀ fuel, readRecord parse fuel s = some (.error e) := by
  have hresult : 0 < 2 ^ 0 := by decide
  obtain ⟨e, he⟩ := decodeGroups_error hs hdecode hresult
  exact ⟨e, fun fuel => by rw [readRecord, decodeVarintFromStream, he]⟩

theorem readRecord_ok {payload rest : Bytes} {msg : Msg} {s : Stream z}
    (hs : s.remaining = some (Varint.encode payload.length ++ (payload ++ rest)))
    (hne : payload ≠ []) (hsize : payload.length < 2 ^ 31) (hparse : parse payload = some msg) :
    ∃ s', s'.remaining = some rest ∧
      ∀ fuel, readRecord parse fuel s = some (.ok (some msg, s')) := by
  obtain ⟨s₁, hlength, hs₁⟩ := decodeVarint_encode hs (by omega)
  rw [signed_size hsize] at hlength
  obtain ⟨s₂, hread, hs₂⟩ := Stream.read_exact hs₁ hne
  have hnonneg : ¬ (payload.length : Int) < 0 := by omega
  refine ⟨s₂, hs₂, fun fuel => ?_⟩
  have hdone : readOn fuel payload.length payload s₂ = some (.ok (payload, s₂)) := by
    cases fuel <;> simp [readOn]
  simp only [readRecord, hlength, if_neg hnonneg, Int.toNat_natCast, hread, hdone, Option.map_some,
    hparse]

/-- At the end mark the call returns `False`, and no call returns after it. -/
theorem readRecord_stop {s : Stream z} (hs : s.remaining = some (Varint.encode (2 ^ 32 - 1))) :
    ∃ s', s'.remaining = some [] ∧ ∀ fuel, readRecord parse fuel s = some (.ok (none, s')) := by
  rw [← List.append_nil (Varint.encode _)] at hs
  obtain ⟨s', hmark, hs'⟩ := decodeVarint_encode hs (by decide)
  rw [signed_end] at hmark
  have hneg : (-1 : Int) < 0 := by decide
  refine ⟨s', hs', fun fuel => ?_⟩
  simp only [readRecord, hmark, if_pos hneg]

theorem calls_of_error {s : Stream z} {e : Error}
    (h : ∀ fuel, readRecord parse fuel s = some (.error e)) (s' : Stream z)
    (hcalls : Relation.ReflTransGen (Call parse) s s') : Ends parse s' := by
  rcases hcalls.cases_head with rfl | ⟨next, ⟨fuel, msg, hcall⟩, _⟩
  · exact ⟨0, by rw [h, Option.isSome_some]⟩
  · rw [h] at hcall
    cases hcall

theorem calls_of_ok {s next : Stream z} {msg : Option Msg}
    (h : ∀ fuel, readRecord parse fuel s = some (.ok (msg, next))) :
    (∀ s', Relation.ReflTransGen (Call parse) s s' → Ends parse s') ↔
      ∀ s', Relation.ReflTransGen (Call parse) next s' → Ends parse s' := by
  constructor
  · intro hends s' hcalls
    exact hends s' (.head ⟨0, msg, h 0⟩ hcalls)
  · intro hends s' hcalls
    rcases hcalls.cases_head with rfl | ⟨other, ⟨fuel, msg', hcall⟩, hcalls⟩
    · exact ⟨0, by rw [h, Option.isSome_some]⟩
    · rw [h] at hcall
      obtain ⟨rfl, rfl⟩ := Prod.mk.inj (Except.ok.inj (Option.some.inj hcall))
      exact hends s' hcalls

/-- Read record by record, a prefix of a valid file only keeps the reader in its loop where its
end lies in a message. -/
theorem prefix_ends_iff {payloads : List Bytes} {k : Nat} {s : Stream z}
    (hs : s.remaining = some ((records payloads).take k))
    (hne : ∀ payload ∈ payloads, payload ≠ [])
    (hsize : ∀ payload ∈ payloads, payload.length < 2 ^ 31)
    (hparse : ∀ payload ∈ payloads, (parse payload).isSome) :
    (∀ s', Relation.ReflTransGen (Call parse) s s' → Ends parse s') ↔ ¬ CutInside payloads k := by
  induction payloads generalizing k s with
  | nil =>
    refine iff_of_true ?_ id
    change s.remaining = some ((Varint.encode (2 ^ 32 - 1)).take k) at hs
    by_cases hk : k < (Varint.encode (2 ^ 32 - 1)).length
    · obtain ⟨e, he⟩ := readRecord_error parse hs (Varint.decode_take_encode hk)
      exact calls_of_error parse he
    · rw [List.take_of_length_le (Nat.le_of_not_lt hk)] at hs
      obtain ⟨next, hnext, hstop⟩ := readRecord_stop parse hs
      obtain ⟨e, he⟩ := readRecord_error parse hnext rfl
      exact (calls_of_ok parse hstop).mpr (calls_of_error parse he)
  | cons payload payloads ih =>
    rw [List.forall_mem_cons] at hne hsize hparse
    rw [records_cons, List.append_assoc] at hs
    rw [CutInside]
    generalize hstart : (Varint.encode payload.length).length = start
    by_cases hheader : k < start
    · -- The size is cut.
      rw [List.take_append_of_le_length (by omega)] at hs
      obtain ⟨e, he⟩ := readRecord_error parse hs (Varint.decode_take_encode (by omega))
      refine iff_of_true (calls_of_error parse he) ?_
      omega
    · have hlength := Varint.length_encode_le (n := payload.length) (k := 4) (by omega)
      rw [List.take_append, List.take_of_length_le (by omega), hstart] at hs
      by_cases hbody : k < start + payload.length
      · -- The message is cut.
        refine iff_of_false ?_ (not_not.mpr (Or.inl ⟨by omega, hbody⟩))
        intro hends
        rw [List.take_append_of_le_length (by omega)] at hs
        refine (ends_iff parse s).mp (hends s .refl) ⟨_, _, _, hs, Varint.decode_encode _ _, ?_,
          hsize.1, ?_⟩
        · rw [List.length_append]
          omega
        · rw [List.length_take]
          omega
      · rw [List.take_append, List.take_of_length_le (by omega), Nat.sub_sub] at hs
        obtain ⟨msg, hmsg⟩ := Option.isSome_iff_exists.mp hparse.1
        obtain ⟨next, hnext, hok⟩ := readRecord_ok parse hs hne.1 hsize.1 hmsg
        rw [calls_of_ok parse hok, ih hnext hne.2 hsize.2 hparse.2]
        have hout : ¬ (start ≤ k ∧ k < start + payload.length) := by omega
        have hpast : start + payload.length ≤ k := Nat.le_of_not_lt hbody
        simp only [hout, hpast, false_or, true_and]

end Cut

/-- Every call ends, by returning or raising, but those that find a message cut short. For the
prefixes of a valid file these are the ones that end in a message. -/
theorem recordReader_ends_iff :
    (∀ s : Stream z, Ends parse s ↔ ¬ CutShort s) ∧
      ∀ (payloads : List Bytes) (k : Nat) (s : Stream z),
        s.remaining = some ((records payloads).take k) →
        (∀ payload ∈ payloads, payload ≠ [] ∧ payload.length < 2 ^ 31 ∧ (parse payload).isSome) →
          ((∀ s', Relation.ReflTransGen (Call parse) s s' → Ends parse s') ↔
            ¬ CutInside payloads k) := by
  refine ⟨ends_iff parse, ?_⟩
  intro payloads k s hs hpayloads
  exact prefix_ends_iff parse hs (fun payload h => (hpayloads payload h).1)
    (fun payload h => (hpayloads payload h).2.1) fun payload h => (hpayloads payload h).2.2

section Samples

/-- A library that stores what it is given. -/
def stored : Inflate where
  Decompressor := Unit
  decompressobj := ()
  decompress _ chunk := some ((), chunk)
  flush _ := some []

/-- A file of two messages, cut between the two bytes of the second one's size. -/
theorem recordReader_ends_sample :
    ∀ s', Relation.ReflTransGen (Call (some : Bytes → Option Bytes))
        (openStream stored false ((records [[8, 1], List.replicate 200 8]).take 4)) s' →
      Ends some s' := by
  have hlength : (List.replicate 200 (8 : UInt8)).length = 200 := List.length_replicate
  refine ((recordReader_ends_iff some).2 [[8, 1], List.replicate 200 8] 4 _ rfl ?_).mpr ?_
  · intro payload h
    rcases List.mem_pair.mp h with rfl | rfl
    · exact ⟨by decide, by decide, rfl⟩
    · exact ⟨List.length_pos_iff.mp (by omega), by omega, rfl⟩
  · have hfirst : (Varint.encode [(8 : UInt8), 1].length).length = 1 := by
      rw [Varint.encode_of_lt (by decide), List.length_singleton]
    have hsecond : (Varint.encode 200).length = 2 := by
      rw [Varint.encode_of_le (by decide), Varint.encode_of_lt (by decide)]
      rfl
    simp only [CutInside, hlength, hfirst, hsecond]
    decide

/-- The first byte of the message is there, the second is not. -/
theorem cut_message_never_ends :
    [2, 8] <+: records [[8, 1]] ∧
      ¬ Ends (some : Bytes → Option Bytes) (openStream stored false [2, 8]) := by
  constructor
  · rw [records_cons, Varint.encode_of_lt (by decide)]
    exact ⟨1 :: records [], rfl⟩
  · rw [ends_iff, not_not]
    exact ⟨[2, 8], 2, [8], rfl, rfl, by decide, by decide, by decide⟩

end Samples

end InferUI.DamagedFile
