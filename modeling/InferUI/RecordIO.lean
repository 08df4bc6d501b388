import InferUI.Varint
import Mathlib.Data.Int.Bitwise
import Mathlib.Data.List.Basic

/-!
# Record files

`recordio.py` and `recordio.cpp`. A file is a row of messages, each behind its size as a
varint, and ends with the varint of -1. The compression library is a parameter: of it the
code only needs that what was written piece by piece comes out again, whatever the chunks
in which the file is read. A read that raises, or does not return within its fuel, is `none`.
-/

namespace InferUI.RecordIO
open Varint (Bytes)

/-- `compressobj` and `decompressobj` of the `zlib` module, and the stream of `zstr`. -/
structure Zlib where
  Compressor : Type
  Decompressor : Type
  compressobj : Compressor
  compress : Compressor → Bytes → Compressor × Bytes
  finish : Compressor → Bytes
  decompressobj : Decompressor
  decompress : Decompressor → Bytes → Decompressor × Bytes
  flush : Decompressor → Bytes

namespace Zlib
variable (z : Zlib)

/-- The file that results from writing the pieces in turn and closing. -/
def compressAll : z.Compressor → List Bytes → Bytes
  | c, [] => z.finish c
  | c, piece :: pieces => (z.compress c piece).2 ++ compressAll (z.compress c piece).1 pieces

/-- What reading the chunks in turn up to the end of the file gives. -/
def decompressAll : z.Decompressor → List Bytes → Bytes
  | d, [] => z.flush d
  | d, chunk :: chunks => (z.decompress d chunk).2 ++ decompressAll (z.decompress d chunk).1 chunks

/-- What was compressed comes out again, however it is cut into chunks. -/
def Inverse : Prop :=
  ∀ pieces chunks : List Bytes, (∀ chunk ∈ chunks, chunk ≠ []) →
    chunks.flatten = z.compressAll z.compressobj pieces →
      z.decompressAll z.decompressobj chunks = pieces.flatten

end Zlib

/-! ## Writing -/

section Write

/-- The loop of `WriteVarintToStream`: the single bytes that it writes. -/
def writeGroups (bits value : Nat) : List Bytes :=
  if value = 0 then [[UInt8.ofNat bits]]
  else [UInt8.ofNat (0x80 ||| bits)] :: writeGroups (value &&& 0x7f) (value >>> 7)
termination_by value
decreasing_by
  rw [Varint.shift_seven]
  omega

def writeVarintToStream (value : Int) : List Bytes :=
  let value := (if value < 0 then value + 2 ^ 32 else value).toNat
  writeGroups (value &&& 0x7f) (value >>> 7)

/-- The calls of `write` on the stream of the Python `RecordWriter`, closing included. -/
def pythonWrites (msgs : List Bytes) : List Bytes :=
  (msgs.flatMap fun msg => writeVarintToStream msg.length ++ [msg]) ++ writeVarintToStream (-1)

/-- `CodedOutputStream::WriteVarint32`. -/
def writeVarint32 (value : UInt32) : Bytes := Varint.encode value.toNat

/-- The bytes that the C++ `RecordWriter` gives to its stream, closing included. -/
def cppBytes (msgs : List Bytes) : Bytes :=
  (msgs.flatMap fun msg => writeVarint32 (UInt32.ofNat msg.length) ++ msg) ++ writeVarint32 (-1)

inductive Writer where
  | cpp | python
  deriving DecidableEq, Repr

/-- The files that a writer may leave. The buffer of the C++ stream decides into which pieces
the bytes are cut before they are compressed. -/
def Writes (z : Zlib) : Writer → Bool → List Bytes → Bytes → Prop
  | .cpp, false, msgs, file => file = cppBytes msgs
  | .cpp, true, msgs, file =>
    ∃ pieces, pieces.flatten = cppBytes msgs ∧ file = z.compressAll z.compressobj pieces
  | .python, false, msgs, file => file = (pythonWrites msgs).flatten
  | .python, true, msgs, file => file = z.compressAll z.compressobj (pythonWrites msgs)

end Write

/-! ## Reading -/

section Read

/-- The stream of a `RecordReader`, with what is still to come of the file in the chunks in
which it comes: an open file, or a `ZlibReader`. -/
inductive Source (z : Zlib)
  | file (chunks : List Bytes)
  | zlib (chunks : List Bytes) (zip : Option z.Decompressor) (data : Bytes)

variable {z : Zlib}

def openSource (z : Zlib) (compressed : Bool) (chunks : List Bytes) : Source z :=
  if compressed then .zlib chunks (some z.decompressobj) [] else .file chunks

namespace Source

/-- `_fill`, as long as the file has not come to its end. -/
def fill (size : Nat) : List Bytes → z.Decompressor → Bytes → Source z
  | [], d, data =>
    if data.length < size then .zlib [] none (data ++ z.flush d) else .zlib [] (some d) data
  | chunk :: chunks, d, data =>
    if data.length < size then
      fill size chunks (z.decompress d chunk).1 (data ++ (z.decompress d chunk).2)
    else .zlib (chunk :: chunks) (some d) data

/-- `read` of an open file, which may return less than asked for, and of a `ZlibReader`. -/
def read (size : Nat) : Source z → Option (Bytes × Source z)
  | file [] => some ([], file [])
  | file (chunk :: chunks) =>
    if size < chunk.length then some (chunk.take size, file (chunk.drop size :: chunks))
    else some (chunk, file chunks)
  | zlib chunks zip data =>
    if 0 < size then
      match (match zip with
        | none => zlib chunks none data
        | some d => fill size chunks d data) with
      | zlib chunks zip data => some (data.take size, zlib chunks zip (data.drop size))
      | file _ => none
    else none

/-- What reading on would give. -/
def content : Source z → Bytes
  | file chunks => chunks.flatten
  | zlib chunks (some d) data => data ++ z.decompressAll d chunks
  | zlib _ none data => data

def compressed : Source z → Bool
  | file _ => false
  | zlib .. => true

/-- No chunk is empty: an empty one is the end of the file. -/
def Valid : Source z → Prop
  | file chunks => ∀ chunk ∈ chunks, chunk ≠ []
  | zlib chunks _ _ => ∀ chunk ∈ chunks, chunk ≠ []

end Source

/-- The number that the 32 bits of a varint stand for. -/
def signed (result : Nat) : Int :=
  if result > 0x7fffffff then Int.lor (result - 2 ^ 32) (Int.lnot (2 ^ 32 - 1))
  else Int.land result (2 ^ 32 - 1)

/-- The loop of `DecodeVarintFromStream`. -/
def decodeGroups (shift result : Nat) (s : Source z) : Option (Int × Source z) :=
  match s.read 1 with
  | some (b :: _, s) =>
    let result := result ||| ((b.toNat &&& 0x7f) <<< shift)
    if b.toNat &&& 0x80 = 0 then some (signed result, s)
    else if shift + 7 ≥ 32 then none
    else decodeGroups (shift + 7) result s
  | _ => none
termination_by 32 - shift

def decodeVarintFromStream (s : Source z) : Option (Int × Source z) := decodeGroups 0 0 s

/-- The loop that reads on while the message is incomplete. -/
def readOn : Nat → Nat → Bytes → Source z → Option (Bytes × Source z)
  | 0, size, buf, s => if buf.length < size then none else some (buf, s)
  | fuel + 1, size, buf, s =>
    if buf.length < size then
      match s.read (size - buf.length) with
      | some (more, s) => readOn fuel size (buf ++ more) s
      | none => none
    else some (buf, s)

variable {Msg : Type} (parse : Bytes → Option Msg)

/-- `RecordReader.read`: the message, or nothing for `False`. -/
def readRecord (fuel : Nat) (s : Source z) : Option (Option Msg × Source z) := do
  let (size, s) ← decodeVarintFromStream s
  if size < 0 then return (none, s)
  let (buf, s) ← s.read size.toNat
  let (buf, s) ← readOn fuel size.toNat buf s
  return (some (← parse buf), s)

/-- Reading until `False`, for at most `count` calls. -/
def readAll (fuel : Nat) : Nat → Source z → Option (List Msg)
  | 0, _ => none
  | count + 1, s =>
    match readRecord parse fuel s with
    | some (some msg, s) => (readAll fuel count s).map (msg :: ·)
    | some (none, _) => some []
    | none => none

/-- The reader returns these messages and then `False`. -/
def Reads (s : Source z) (msgs : List Msg) : Prop :=
  ∃ fuel₀, ∀ fuel ≥ fuel₀, readAll parse fuel (msgs.length + 1) s = some msgs

end Read

/-! ## What is read -/

section Spec
variable {z : Zlib}

namespace Source

/-- Filling makes the data long enough and changes nothing of what is to come. -/
theorem fill_spec {size : Nat} {chunks : List Bytes} {d : z.Decompressor} {data : Bytes}
    (hchunks : ∀ chunk ∈ chunks, chunk ≠ [])
    (h : size ≤ (data ++ z.decompressAll d chunks).length) :
    ∃ chunks' zip data', fill size chunks d data = zlib chunks' zip data' ∧ size ≤ data'.length ∧
      (zlib chunks' zip data').content = data ++ z.decompressAll d chunks ∧
      ∀ chunk ∈ chunks', chunk ≠ [] := by
  induction chunks generalizing d data with
  | nil =>
    rw [fill]
    split
    · exact ⟨_, _, _, rfl, h, rfl, hchunks⟩
    · exact ⟨_, _, _, rfl, by omega, rfl, hchunks⟩
  | cons chunk chunks ih =>
    rw [fill]
    split
    · rw [Zlib.decompressAll, ← List.append_assoc] at h ⊢
      exact ih (fun c hc => hchunks c (List.mem_cons_of_mem _ hc)) h
    · exact ⟨_, _, _, rfl, by omega, rfl, hchunks⟩

/-- A read before the end gives some of the next bytes, and goes past just these. -/
theorem read_spec {s : Source z} {size : Nat} (hs : s.Valid) (hpos : 0 < size)
    (h : size ≤ s.content.length) :
    ∃ out s', s.read size = some (out, s') ∧ out ≠ [] ∧ out.length ≤ size ∧
      s.content = out ++ s'.content ∧ s'.Valid ∧ s'.compressed = s.compressed := by
  cases s with
  | file chunks =>
    cases chunks with
    | nil => simp [content] at h; omega
    | cons chunk chunks =>
      have hne := hs chunk List.mem_cons_self
      have hrest (c : Bytes) (hc : c ∈ chunks) := hs c (List.mem_cons_of_mem _ hc)
      have hlen : 0 < chunk.length := List.length_pos_iff.mpr hne
      rw [read]
      split
      · rename_i hlt
        refine ⟨_, _, rfl, ?_, List.length_take_le _ _, ?_, ?_, rfl⟩
        · rw [← List.length_pos_iff, List.length_take]
          omega
        · simp [content, ← List.append_assoc]
        · intro c hc
          rcases List.mem_cons.mp hc with rfl | hc
          · rw [← List.length_pos_iff, List.length_drop]
            omega
          · exact hrest c hc
      · exact ⟨_, _, rfl, hne, by omega, by simp [content], hrest, rfl⟩
  | zlib chunks zip data =>
    have filled : ∃ chunks' zip' data',
        (match zip with | none => zlib chunks none data | some d => fill size chunks d data) =
          zlib chunks' zip' data' ∧ size ≤ data'.length ∧
        (zlib chunks' zip' data').content = (zlib chunks zip data).content ∧
        ∀ chunk ∈ chunks', chunk ≠ [] := by
      cases zip with
      | none => exact ⟨_, _, _, rfl, h, rfl, hs⟩
      | some d => exact fill_spec hs h
    obtain ⟨chunks', zip', data', hfill, hsize, hcontent, hvalid⟩ := filled
    simp only [read, if_pos hpos, hfill]
    refine ⟨_, _, rfl, ?_, List.length_take_le _ _, ?_, hvalid, rfl⟩
    · rw [← List.length_pos_iff, List.length_take]
      omega
    · rw [← hcontent]
      cases zip' with
      | none => exact (List.take_append_drop size data').symm
      | some d =>
        simp only [content]
        rw [← List.append_assoc, List.take_append_drop]

/-- A single byte. -/
theorem read_one {s : Source z} {b : UInt8} {rest : Bytes} (hs : s.Valid)
    (h : s.content = b :: rest) :
    ∃ s', s.read 1 = some ([b], s') ∧ s'.content = rest ∧ s'.Valid ∧
      s'.compressed = s.compressed := by
  obtain ⟨out, s', hread, hne, hle, hcontent, hvalid, hc⟩ := read_spec hs Nat.one_pos
    (by rw [h]; simp)
  have hone : out.length = 1 := Nat.le_antisymm hle (List.length_pos_iff.mpr hne)
  obtain ⟨c, rfl⟩ := List.length_eq_one_iff.mp hone
  rw [h, List.cons_append, List.nil_append, List.cons.injEq] at hcontent
  obtain ⟨rfl, hrest⟩ := hcontent
  exact ⟨s', hread, hrest.symm, hvalid, hc⟩

end Source

/-- The loop reads a varint back, on top of the groups that it has. -/
theorem decodeGroups_encode {n shift result : Nat} {s : Source z} {rest : Bytes} (hs : s.Valid)
    (hcontent : s.content = Varint.encode n ++ rest) (hresult : result < 2 ^ shift)
    (hshift : shift % 7 = 0) (hle : shift ≤ 28) (hn : n < 2 ^ (32 - shift)) :
    ∃ s', decodeGroups shift result s = some (signed (result + 2 ^ shift * n), s') ∧
      s'.content = rest ∧ s'.Valid ∧ s'.compressed = s.compressed := by
  induction n using Nat.strong_induction_on generalizing shift result s with
  | _ n ih =>
    rw [decodeGroups]
    by_cases hsmall : n < 128
    · rw [Varint.encode_of_lt hsmall, List.singleton_append] at hcontent
      obtain ⟨s', hread, hrest, hvalid, hc⟩ := Source.read_one hs hcontent
      have hhigh := (Varint.and_high (n := n) (by omega)).mpr hsmall
      refine ⟨s', ?_, hrest, hvalid, hc⟩
      simp only [hread, Varint.toNat_last hsmall, hhigh, ↓reduceIte, Varint.and_mask,
        Nat.mod_eq_of_lt hsmall, Varint.or_shift hresult]
    · have hbig : 128 ≤ n := Nat.le_of_not_lt hsmall
      rw [Varint.encode_of_le hbig, List.cons_append] at hcontent
      obtain ⟨s', hread, hrest, hvalid, hc⟩ := Source.read_one hs hcontent
      have hhigh : ¬ ((n % 128 + 128) &&& 0x80 = 0) := by
        rw [Varint.and_high (by omega)]
        omega
      have hlow : (n % 128 + 128) &&& 0x7f = n % 128 := by
        rw [Varint.and_mask]
        omega
      -- A number that needs another group leaves room for it.
      have hroom : shift ≤ 21 := by
        by_contra hc
        have h28 : shift = 28 := by omega
        subst h28
        omega
      have hn' : n / 128 < 2 ^ (32 - (shift + 7)) := by
        rw [Nat.div_lt_iff_lt_mul (by decide)]
        have : 2 ^ (32 - (shift + 7)) * 128 = 2 ^ (32 - shift) := by
          rw [← Nat.pow_add 2 _ 7]
          congr 1
          omega
        omega
      obtain ⟨s'', hdecode, hrest', hvalid', hc'⟩ := ih (n / 128) (by omega) hvalid hrest
        (Varint.group_lt hresult n) (by omega) (by omega) hn'
      refine ⟨s'', ?_, hrest', hvalid', hc'.trans hc⟩
      have hsum : result + 2 ^ shift * (n % 128) + 2 ^ (shift + 7) * (n / 128) =
          result + 2 ^ shift * n := by
        rw [Varint.group_sum, Nat.mod_add_div]
      have hgo : ¬ shift + 7 ≥ 32 := by omega
      simp only [hread, Varint.toNat_more, hhigh, ↓reduceIte, hlow, Varint.or_shift hresult, hgo,
        hdecode, hsum]

theorem decodeVarint_encode {n : Nat} {s : Source z} {rest : Bytes} (hs : s.Valid)
    (hcontent : s.content = Varint.encode n ++ rest) (hn : n < 2 ^ 32) :
    ∃ s', decodeVarintFromStream s = some (signed n, s') ∧
      s'.content = rest ∧ s'.Valid ∧ s'.compressed = s.compressed := by
  have hresult : 0 < 2 ^ 0 := by decide
  have := decodeGroups_encode hs hcontent hresult rfl (by decide) hn
  simpa [decodeVarintFromStream] using this

theorem signed_size {n : Nat} (h : n < 2 ^ 31) : signed n = n := by
  have hle : ¬ n > 0x7fffffff := by omega
  rw [signed, if_neg hle]
  have hland : Int.land (n : Int) (2 ^ 32 - 1) = ((n &&& (2 ^ 32 - 1) : Nat) : Int) := rfl
  rw [hland, Nat.and_two_pow_sub_one_eq_mod, Nat.mod_eq_of_lt (by omega)]

theorem signed_end : signed (2 ^ 32 - 1) = -1 := by decide

/-- The loop around `read` completes a message. -/
theorem readOn_spec {fuel size : Nat} {buf more rest : Bytes} {s : Source z} (hs : s.Valid)
    (hcontent : s.content = more ++ rest) (hsize : size = buf.length + more.length)
    (hfuel : more.length ≤ fuel) :
    ∃ s', readOn fuel size buf s = some (buf ++ more, s') ∧ s'.content = rest ∧ s'.Valid ∧
      s'.compressed = s.compressed := by
  induction fuel generalizing buf more s with
  | zero =>
    obtain rfl := List.length_eq_zero_iff.mp (Nat.le_zero.mp hfuel)
    refine ⟨s, ?_, hcontent, hs, rfl⟩
    rw [readOn, if_neg (by simp [hsize]), List.append_nil]
  | succ fuel ih =>
    rw [readOn]
    by_cases hmore : more = []
    · subst hmore
      refine ⟨s, ?_, hcontent, hs, rfl⟩
      rw [if_neg (by simp [hsize]), List.append_nil]
    · have hpos := List.length_pos_iff.mpr hmore
      have hneed : size - buf.length = more.length := by omega
      rw [if_pos (by omega), hneed]
      obtain ⟨out, s', hread, hne, hle, hsplit, hvalid, hc⟩ := Source.read_spec hs hpos
        (by rw [hcontent]; simp)
      rw [hread]
      have hout := List.length_pos_iff.mpr hne
      obtain ⟨more', rfl⟩ : out <+: more :=
        List.prefix_of_prefix_length_le ⟨s'.content, hsplit.symm⟩ ⟨rest, hcontent.symm⟩ hle
      rw [hcontent, List.append_assoc, List.append_cancel_left_eq] at hsplit
      rw [List.length_append] at hfuel hsize
      have hsize' : size = (buf ++ out).length + more'.length := by
        rw [List.length_append]
        omega
      obtain ⟨s'', hon, hrest, hvalid', hc'⟩ := ih hvalid hsplit.symm hsize' (by omega)
      rw [List.append_assoc] at hon
      exact ⟨s'', hon, hrest, hvalid', hc'.trans hc⟩

section Records
variable {Msg : Type} {parse : Bytes → Option Msg} {fuel : Nat} {s : Source z}

theorem readRecord_message {payload rest : Bytes} {msg : Msg} (hs : s.Valid)
    (hcontent : s.content = Varint.encode payload.length ++ payload ++ rest)
    (hsize : payload.length < 2 ^ 31) (hparse : parse payload = some msg)
    (hempty : s.compressed = false ∨ payload ≠ []) (hfuel : payload.length ≤ fuel) :
    ∃ s', readRecord parse fuel s = some (some msg, s') ∧ s'.content = rest ∧ s'.Valid ∧
      s'.compressed = s.compressed := by
  rw [List.append_assoc] at hcontent
  obtain ⟨s₁, hdecode, hrest, hvalid, hc⟩ := decodeVarint_encode hs hcontent (by omega)
  rw [signed_size hsize] at hdecode
  have hnonneg : ¬ (payload.length : Int) < 0 := by omega
  have body : ∃ out s₂ s₃, s₁.read payload.length = some (out, s₂) ∧
      readOn fuel payload.length out s₂ = some (payload, s₃) ∧ s₃.content = rest ∧ s₃.Valid ∧
      s₃.compressed = s.compressed := by
    by_cases hpayload : payload = []
    · -- Only an open file can be read for a message of no bytes.
      have hplain := hc.trans (hempty.resolve_right (not_not.mpr hpayload))
      subst hpayload
      rw [List.nil_append] at hrest
      have hread : s₁.read 0 = some ([], s₁) := by
        cases s₁ with
        | zlib => cases hplain
        | file chunks =>
          cases chunks with
          | nil => rfl
          | cons chunk chunks =>
            have := List.length_pos_iff.mpr (hvalid chunk List.mem_cons_self)
            simp [Source.read, this]
      refine ⟨[], s₁, s₁, hread, ?_, hrest, hvalid, hc⟩
      cases fuel <;> simp [readOn]
    · obtain ⟨out, s₂, hread, _, hle, hsplit, hvalid₂, hc₂⟩ := Source.read_spec hvalid
        (List.length_pos_iff.mpr hpayload) (by rw [hrest]; simp)
      obtain ⟨more, hmore⟩ : out <+: payload :=
        List.prefix_of_prefix_length_le ⟨s₂.content, hsplit.symm⟩ ⟨rest, hrest.symm⟩ hle
      have hlength := congrArg List.length hmore
      rw [List.length_append] at hlength
      rw [hrest, ← hmore, List.append_assoc, List.append_cancel_left_eq] at hsplit
      have hmore' : more.length ≤ fuel := by omega
      obtain ⟨s₃, hon, hrest₃, hvalid₃, hc₃⟩ := readOn_spec hvalid₂ hsplit.symm hlength.symm hmore'
      rw [hmore] at hon
      exact ⟨out, s₂, s₃, hread, hon, hrest₃, hvalid₃, hc₃.trans (hc₂.trans hc)⟩
  obtain ⟨out, s₂, s₃, hread, hon, hspec⟩ := body
  refine ⟨s₃, ?_, hspec⟩
  simp [readRecord, hdecode, hnonneg, hread, hon, hparse]

/-- The assertion of `ZlibReader.read` fails on a message of no bytes. -/
theorem readRecord_empty {rest : Bytes} (hs : s.Valid)
    (hcontent : s.content = Varint.encode 0 ++ rest) (hzlib : s.compressed = true) :
    readRecord parse fuel s = none := by
  obtain ⟨s', hdecode, _, _, hc⟩ := decodeVarint_encode hs hcontent (by decide)
  rw [signed_size (by decide)] at hdecode
  have hread : s'.read 0 = none := by
    cases s' with
    | file => rw [hzlib] at hc; cases hc
    | zlib => simp [Source.read]
  simp [readRecord, hdecode, hread]

variable (parse fuel) in
theorem readRecord_end {rest : Bytes} (hs : s.Valid)
    (hcontent : s.content = Varint.encode (2 ^ 32 - 1) ++ rest) :
    ∃ s', readRecord parse fuel s = some (none, s') := by
  obtain ⟨s', hdecode, _⟩ := decodeVarint_encode hs hcontent (by decide)
  rw [signed_end] at hdecode
  exact ⟨s', by simp [readRecord, hdecode]⟩

/-- The bytes that both writers give to their streams. -/
def records (payloads : List Bytes) : Bytes :=
  (payloads.flatMap fun payload => Varint.encode payload.length ++ payload) ++
    Varint.encode (2 ^ 32 - 1)

theorem records_cons (payload : Bytes) (payloads : List Bytes) :
    records (payload :: payloads) =
      Varint.encode payload.length ++ payload ++ records payloads := by
  simp [records]

section Messages
variable {serialize : Msg → Bytes} (hproto : ∀ msg, parse (serialize msg) = some msg)
  (hfuel : 2 ^ 31 ≤ fuel)
include hproto hfuel

/-- Reading the messages up to the end mark. -/
theorem readAll_messages {msgs : List Msg} (hsize : ∀ msg ∈ msgs, (serialize msg).length < 2 ^ 31)
    (hs : s.Valid) (hcontent : s.content = records (msgs.map serialize))
    (hempty : s.compressed = false ∨ ∀ msg ∈ msgs, serialize msg ≠ []) :
    readAll parse fuel (msgs.length + 1) s = some msgs := by
  induction msgs generalizing s with
  | nil =>
    obtain ⟨s', hread⟩ := readRecord_end parse fuel hs
      (hcontent.trans (List.append_nil _).symm)
    rw [readAll, hread]
  | cons msg msgs ih =>
    rw [List.map_cons, records_cons] at hcontent
    have hlt := hsize msg List.mem_cons_self
    have hle : (serialize msg).length ≤ fuel := by omega
    obtain ⟨s', hread, hrest, hvalid, hc⟩ := readRecord_message hs hcontent hlt (hproto msg)
      (hempty.imp_right fun h => h msg List.mem_cons_self) hle
    rw [List.length_cons, readAll, hread]
    simp only
    rw [ih (fun m hm => hsize m (List.mem_cons_of_mem _ hm)) hvalid hrest
      (hempty.imp hc.trans fun h m hm => h m (List.mem_cons_of_mem _ hm))]
    rfl

/-- Decompressing, the reader raises at the first message of no bytes. -/
theorem readAll_raises {msgs : List Msg} (hsize : ∀ msg ∈ msgs, (serialize msg).length < 2 ^ 31)
    (hs : s.Valid) (hcontent : s.content = records (msgs.map serialize))
    (hzlib : s.compressed = true) (hempty : ∃ msg ∈ msgs, serialize msg = []) :
    readAll parse fuel (msgs.length + 1) s = none := by
  induction msgs generalizing s with
  | nil =>
    obtain ⟨_, hm, _⟩ := hempty
    cases hm
  | cons msg msgs ih =>
    rw [List.map_cons, records_cons] at hcontent
    rw [List.length_cons, readAll]
    by_cases hfirst : serialize msg = []
    · rw [hfirst, List.length_nil, List.append_nil] at hcontent
      rw [readRecord_empty hs hcontent hzlib]
    · have hlt := hsize msg List.mem_cons_self
      have hle : (serialize msg).length ≤ fuel := by omega
      obtain ⟨s', hread, hrest, hvalid, hc⟩ := readRecord_message hs hcontent hlt (hproto msg)
        (Or.inr hfirst) hle
      obtain ⟨m, hm, he⟩ := hempty
      have hlater : ∃ m ∈ msgs, serialize m = [] := by
        rcases List.mem_cons.mp hm with rfl | hm
        · exact absurd he hfirst
        · exact ⟨m, hm, he⟩
      rw [hread]
      simp only
      rw [ih (fun m hm => hsize m (List.mem_cons_of_mem _ hm)) hvalid hrest (hc.trans hzlib) hlater]
      rfl

end Messages
end Records
end Spec

/-! ## What is written -/

section Written

theorem writeGroups_flatten {bits : Nat} (value : Nat) (hbits : bits < 128) :
    (writeGroups bits value).flatten = Varint.encode (128 * value + bits) := by
  induction value using Nat.strong_induction_on generalizing bits with
  | _ value ih =>
    rw [writeGroups]
    by_cases hzero : value = 0
    · subst hzero
      rw [if_pos rfl, Varint.encode_of_lt (by omega)]
      simp
    · have hle : 128 ≤ 128 * value + bits := by omega
      have hlow : (128 * value + bits) % 128 = bits := by omega
      have hhigh : (128 * value + bits) / 128 = value := by omega
      rw [if_neg hzero, List.flatten_cons, Varint.shift_seven, Varint.and_mask,
        ih (value / 128) (by omega) (Nat.mod_lt _ (by decide)), Nat.div_add_mod,
        Varint.encode_of_le hle, hlow, hhigh, Varint.or_high hbits, List.singleton_append]

theorem writeVarint_flatten (n : Nat) : (writeVarintToStream n).flatten = Varint.encode n := by
  have hn : ¬ (n : Int) < 0 := by omega
  rw [writeVarintToStream]
  simp only [hn, ↓reduceIte, Int.toNat_natCast]
  rw [Varint.and_mask, Varint.shift_seven, writeGroups_flatten _ (Nat.mod_lt _ (by decide)),
    Nat.div_add_mod]

theorem writeVarint_end : (writeVarintToStream (-1)).flatten = Varint.encode (2 ^ 32 - 1) := by
  have : writeVarintToStream (-1) = writeVarintToStream ((2 ^ 32 - 1 : Nat) : Int) := rfl
  rw [this, writeVarint_flatten]

theorem pythonWrites_flatten (msgs : List Bytes) : (pythonWrites msgs).flatten = records msgs := by
  rw [pythonWrites, List.flatten_append, writeVarint_end, records]
  congr 1
  induction msgs with
  | nil => rfl
  | cons msg msgs ih =>
    rw [List.flatMap_cons, List.flatMap_cons, List.flatten_append, ih, List.flatten_append,
      writeVarint_flatten]
    simp

theorem cppBytes_eq {msgs : List Bytes} (hsize : ∀ msg ∈ msgs, msg.length < 2 ^ 31) :
    cppBytes msgs = records msgs := by
  have hend : writeVarint32 (-1) = Varint.encode (2 ^ 32 - 1) := rfl
  have hmsg (msg : Bytes) (hm : msg ∈ msgs) :
      writeVarint32 (UInt32.ofNat msg.length) ++ msg = Varint.encode msg.length ++ msg := by
    have := hsize msg hm
    rw [writeVarint32, UInt32.toNat_ofNat', Nat.mod_eq_of_lt (by omega)]
  rw [cppBytes, hend, records, List.flatMap_congr hmsg]

/-- Both writers leave the same stream, and opening the file gives it back. -/
theorem content_openSource {z : Zlib} {w : Writer} {compressed : Bool} {msgs chunks : List Bytes}
    (hz : z.Inverse) (hsize : ∀ msg ∈ msgs, msg.length < 2 ^ 31)
    (hchunks : ∀ chunk ∈ chunks, chunk ≠ [])
    (hw : Writes z w compressed msgs chunks.flatten) :
    (openSource z compressed chunks).content = records msgs := by
  cases compressed with
  | false =>
    cases w with
    | cpp => exact hw.trans (cppBytes_eq hsize)
    | python => exact hw.trans (pythonWrites_flatten msgs)
  | true =>
    have pieces : ∃ pieces : List Bytes, pieces.flatten = records msgs ∧
        chunks.flatten = z.compressAll z.compressobj pieces := by
      cases w with
      | cpp =>
        obtain ⟨pieces, hp, hfile⟩ := hw
        exact ⟨pieces, hp.trans (cppBytes_eq hsize), hfile⟩
      | python => exact ⟨pythonWrites msgs, pythonWrites_flatten msgs, hw⟩
    obtain ⟨pieces, hp, hfile⟩ := pieces
    exact (hz pieces chunks hchunks hfile).trans hp

end Written

/-- Either writer and the reader agree on every list of messages, except that a decompressing
reader cannot read a message of no bytes. -/
theorem record_roundtrip_iff {Msg : Type} {z : Zlib} (hz : z.Inverse)
    {serialize : Writer → Msg → Bytes} {parse : Bytes → Option Msg}
    (hproto : ∀ w msg, parse (serialize w msg) = some msg) (w : Writer) (compressed : Bool)
    {msgs : List Msg} (hsize : ∀ msg ∈ msgs, (serialize w msg).length < 2 ^ 31)
    {chunks : List Bytes} (hchunks : ∀ chunk ∈ chunks, chunk ≠ [])
    (hw : Writes z w compressed (msgs.map (serialize w)) chunks.flatten) :
    Reads parse (openSource z compressed chunks) msgs ↔
      compressed = false ∨ ∀ msg ∈ msgs, serialize w msg ≠ [] := by
  have hcontent := content_openSource hz (by simpa using hsize) hchunks hw
  have hvalid : (openSource z compressed chunks).Valid := by cases compressed <;> exact hchunks
  have hc : (openSource z compressed chunks).compressed = compressed := by cases compressed <;> rfl
  constructor
  · rintro ⟨fuel, hreads⟩
    by_contra hbad
    obtain ⟨hzlib, hempty⟩ : compressed = true ∧ ∃ msg ∈ msgs, serialize w msg = [] := by
      simpa using hbad
    have hnone := readAll_raises (hproto w) (Nat.le_max_right fuel (2 ^ 31)) hsize hvalid hcontent
      (hc.trans hzlib) hempty
    rw [hreads _ (Nat.le_max_left _ _)] at hnone
    cases hnone
  · intro hgood
    exact ⟨2 ^ 31, fun fuel hfuel =>
      readAll_messages (hproto w) hfuel hsize hvalid hcontent (by rwa [hc])⟩

section Samples

/-- A compression that packs one input as `zlib` does and stores the others. -/
def tableZlib (plain packed : Bytes) : Zlib where
  Compressor := Bytes
  Decompressor := Bytes
  compressobj := []
  compress c piece := (c ++ piece, [])
  finish c := if c = plain then packed else 0 :: c
  decompressobj := []
  decompress d chunk := (d ++ chunk, [])
  flush d := if d = packed then plain else d.tail

theorem compressAll_tableZlib {plain packed : Bytes} (c : Bytes) (pieces : List Bytes) :
    (tableZlib plain packed).compressAll c pieces =
      (tableZlib plain packed).finish (c ++ pieces.flatten) := by
  induction pieces generalizing c with
  | nil => simp [Zlib.compressAll]
  | cons piece pieces ih =>
    have := ih (c ++ piece)
    rwa [List.append_assoc] at this

theorem tableZlib_inverse {plain packed : Bytes} (h : packed.head? ≠ some 0) :
    (tableZlib plain packed).Inverse := by
  have unpack (d : Bytes) (chunks : List Bytes) : (tableZlib plain packed).decompressAll d chunks =
      (tableZlib plain packed).flush (d ++ chunks.flatten) := by
    induction chunks generalizing d with
    | nil => simp [Zlib.decompressAll]
    | cons chunk chunks ih =>
      have := ih (d ++ chunk)
      rwa [List.append_assoc] at this
  intro pieces chunks _ hfile
  have hfile := hfile.trans (compressAll_tableZlib [] pieces)
  refine (unpack [] chunks).trans ?_
  rw [List.nil_append, hfile, List.nil_append]
  change (if (if pieces.flatten = plain then packed else 0 :: pieces.flatten) = packed then plain
    else (if pieces.flatten = plain then packed else 0 :: pieces.flatten).tail) = pieces.flatten
  by_cases hp : pieces.flatten = plain
  · rw [if_pos hp, if_pos rfl, hp]
  · have hne : ¬ (0 :: pieces.flatten = packed) := by
      rintro rfl
      exact h rfl
    rw [if_neg hp, if_neg hne, List.tail_cons]

/-- The file that the Python writer leaves for one message of two bytes, compressed. -/
def packedMessage : Bytes :=
  [31, 139, 8, 0, 0, 0, 0, 0, 0, 3, 99, 226, 96, 252, 15, 4, 252, 0, 165, 80, 214, 118, 8, 0, 0, 0]

/-- The same for one message of no bytes. -/
def packedEmpty : Bytes :=
  [31, 139, 8, 0, 0, 0, 0, 0, 0, 3, 99, 248, 15, 4, 252, 0, 208, 180, 160, 24, 6, 0, 0, 0]

theorem compressAll_table (msgs : List Bytes) (packed : Bytes) :
    (tableZlib (records msgs) packed).compressAll (tableZlib (records msgs) packed).compressobj
      (pythonWrites msgs) = packed := by
  refine (compressAll_tableZlib [] _).trans ?_
  rw [List.nil_append, pythonWrites_flatten]
  exact if_pos rfl

theorem record_roundtrip_message :
    Reads (some : Bytes → Option Bytes)
      (openSource (tableZlib (records [[8, 1]]) packedMessage) true
        [packedMessage.take 7, packedMessage.drop 7]) [[8, 1]] := by
  have hproto : ∀ (w : Writer) (msg : Bytes), some ((fun _ msg => msg) w msg) = some msg :=
    fun _ _ => rfl
  refine (record_roundtrip_iff (tableZlib_inverse (by decide)) hproto .python true (by decide)
    (by decide) ?_).mpr (Or.inr (by decide))
  rw [List.map_id']
  exact (compressAll_table _ _).symm

/-- A compressed file with a message of no bytes cannot be read. -/
theorem empty_message_raises :
    Writes (tableZlib (records [[]]) packedEmpty) .python true [[]] packedEmpty ∧
      ¬ Reads (some : Bytes → Option Bytes)
        (openSource (tableZlib (records [[]]) packedEmpty) true [packedEmpty]) [[]] := by
  refine ⟨(compressAll_table _ _).symm, ?_⟩
  rintro ⟨fuel, hreads⟩
  have hcontent : (openSource (tableZlib (records [[]]) packedEmpty) true [packedEmpty]).content =
      records ([[]].map fun msg => msg) := by
    refine content_openSource (w := .python) (tableZlib_inverse (by decide)) (by decide)
      (by decide) ?_
    exact (compressAll_table _ _).symm
  have hvalid : (openSource (tableZlib (records [[]]) packedEmpty) true [packedEmpty]).Valid :=
    (by decide : ∀ chunk ∈ [packedEmpty], chunk ≠ [])
  have hnone := @readAll_raises _ Bytes some _ _ (fun msg => msg) (fun _ => rfl)
    (Nat.le_max_right fuel (2 ^ 31)) [[]] (by decide) hvalid hcontent rfl ⟨[], by decide, rfl⟩
  rw [hreads _ (Nat.le_max_left _ _)] at hnone
  cases hnone

end Samples
end InferUI.RecordIO
