import Mathlib.Data.Vector.Basic
import Mathlib.Tactic.Common

/-!
# Byte blocks, cursor writes and reads at an offset

A wire format written by hand in C is an offset walk: `memcpy(buf + off, field, n); off += n;` on
the way out and the same walk with source and destination exchanged on the way in. `Cursor.put` is
one step of the outgoing walk and `readAt` one read of the incoming one. Consecutive writes at a
cursor inside the buffer are one write of the concatenation (`Cursor.put_put`), and a read at the
offset where a field starts returns that field (`readAt_of_eq`), so a codec proof is a comparison
of two lists of fields. `readAt` fills up with zero bytes behind the end of the buffer; `fetch` and
`fetchByte` are the same reads with an answer only inside it.

A block of fixed size is a `List.Vector`, so that a value of the wrong size cannot be built. The
words of the format are big-endian (`be32`, `ofBe32`, `ofBe32_be32`); `leBytes` and `ofLeBytes` are
for formats that copy words as they lie in memory (`ofLeBytes_leBytes`, `leBytes_ofLeBytes`).
-/

set_option autoImplicit false
set_option relaxedAutoImplicit false

namespace ByteWire

/-- A block of exactly `n` bytes, the C type `uint8_t[n]`. -/
abbrev Block (n : ℕ) := List.Vector UInt8 n

/-- The block of `n` zero bytes, what `memset(p, 0, n)` leaves. -/
def Block.zero (n : ℕ) : Block n := List.Vector.replicate n 0

theorem Block.toList_zero (n : ℕ) : (Block.zero n).toList = List.replicate n 0 := rfl

/-! ### Reads at an offset -/

/-- The first `n` bytes of a list, filled up with zero bytes when the list is shorter. -/
def clip (n : ℕ) (bytes : List UInt8) : Block n :=
  ⟨bytes.take n ++ List.replicate (n - bytes.length) 0, by simp; omega⟩

/-- The `n` bytes of `buf` from offset `off` on. -/
def readAt (n off : ℕ) (buf : List UInt8) : Block n := clip n (buf.drop off)

/-- The byte `buf[off]`. -/
def byteAt (off : ℕ) (buf : List UInt8) : UInt8 := buf.getD off 0

theorem toList_clip {n : ℕ} {bytes : List UInt8} (hlength : n ≤ bytes.length) :
    (clip n bytes).toList = bytes.take n := by
  simp [clip, Nat.sub_eq_zero_of_le hlength]

/-- Assumes: a buffer that has the bytes. -/
theorem toList_readAt {n off : ℕ} {buf : List UInt8} (hlength : off + n ≤ buf.length) :
    (readAt n off buf).toList = (buf.drop off).take n :=
  toList_clip (by rw [List.length_drop]; omega)

/-- Assumes: a buffer that has the byte. -/
theorem singleton_byteAt {off : ℕ} {buf : List UInt8} (hlength : off < buf.length) :
    [byteAt off buf] = (buf.drop off).take 1 := by
  rw [List.drop_eq_getElem_cons hlength, List.take_succ_cons, List.take_zero, byteAt,
    List.getD_eq_getElem?_getD, List.getElem?_eq_getElem hlength, Option.getD_some]

/-- A read at the offset where a field starts returns the field, whatever follows it. Assumes: the
buffer as the bytes in front of the field, the field and the rest. -/
theorem readAt_of_eq {n off : ℕ} {buf rest : List UInt8} (front : List UInt8) (field : Block n)
    (hbuf : buf = front ++ (field.toList ++ rest)) (hoff : front.length = off) :
    readAt n off buf = field := by
  apply List.Vector.eq
  have hdrop : buf.drop off = field.toList ++ rest := by
    rw [hbuf, ← hoff, List.drop_left]
  rw [readAt, hdrop, toList_clip (by simp)]
  rw [List.take_append_of_le_length (by simp)]
  simp

/-- A read at the offset of a single byte returns the byte, whatever follows it. Assumes: the
buffer as the bytes in front of it, the byte and the rest. -/
theorem byteAt_of_eq {off : ℕ} {buf rest : List UInt8} (front : List UInt8) (byte : UInt8)
    (hbuf : buf = front ++ ([byte] ++ rest)) (hoff : front.length = off) :
    byteAt off buf = byte := by
  subst hbuf hoff
  simp [byteAt]

/-- `memcpy(field, buf + off, n)`, or `none` when it reads outside the buffer. -/
def fetch (n off : ℕ) (buf : List UInt8) : Option (Block n) :=
  if off + n ≤ buf.length then some (readAt n off buf) else none

/-- `buf[off]`, or `none` when it is outside the buffer. -/
def fetchByte (off : ℕ) (buf : List UInt8) : Option UInt8 :=
  if off < buf.length then some (byteAt off buf) else none

/-- Assumes: a buffer that has the bytes. -/
theorem fetch_eq {n off : ℕ} {buf : List UInt8} (hlength : off + n ≤ buf.length) :
    fetch n off buf = some (readAt n off buf) :=
  if_pos hlength

/-- Assumes: a buffer that has the byte. -/
theorem fetchByte_eq {off : ℕ} {buf : List UInt8} (hlength : off < buf.length) :
    fetchByte off buf = some (byteAt off buf) :=
  if_pos hlength

/-! ### Words -/

/-- The four bytes of a 32-bit word, most significant first: `htonl` and a copy. -/
def be32 (word : UInt32) : Block 4 :=
  ⟨[(word >>> 24).toUInt8, (word >>> 16).toUInt8, (word >>> 8).toUInt8, word.toUInt8], rfl⟩

/-- The word with the given four bytes, most significant first: a copy and `ntohl`. -/
def ofBe32 (bytes : Block 4) : UInt32 :=
  UInt32.ofNat (bytes.toList.foldl (fun value byte ↦ value * 256 + byte.toNat) 0)

/-- Writing a word big-endian and reading it back returns the word. -/
theorem ofBe32_be32 (word : UInt32) : ofBe32 (be32 word) = word := by
  apply UInt32.toNat_inj.mp
  have hlt := word.toNat_lt
  simp only [ofBe32, be32, List.Vector.toList_mk, List.foldl_cons, List.foldl_nil,
    UInt32.toNat_ofNat', UInt32.toNat_toUInt8, UInt32.toNat_shiftRight, Nat.shiftRight_eq_div_pow,
    UInt32.reduceToNat, Nat.reduceMod, Nat.reducePow, Nat.zero_mul, Nat.zero_add]
  omega

/-- Reading a word big-endian and writing it back returns the bytes. -/
theorem be32_ofBe32 (bytes : Block 4) : be32 (ofBe32 bytes) = bytes := by
  obtain ⟨list, hlength⟩ := bytes
  obtain ⟨a, b, c, d, rfl⟩ : ∃ a b c d, list = [a, b, c, d] := List.length_eq_four.mp hlength
  have ha := a.toNat_lt
  have hb := b.toNat_lt
  have hc := c.toNat_lt
  have hd := d.toNat_lt
  apply List.Vector.eq
  simp only [ofBe32, be32, List.Vector.toList_mk, List.foldl_cons, List.foldl_nil, List.cons.injEq,
    and_true, ← UInt8.toNat_inj, UInt32.toNat_ofNat', UInt32.toNat_toUInt8,
    UInt32.toNat_shiftRight, Nat.shiftRight_eq_div_pow, UInt32.reduceToNat, Nat.reduceMod,
    Nat.reducePow, Nat.zero_mul, Nat.zero_add]
  omega

/-- The low `n` bytes of a number, least significant first, as a little-endian machine stores it. -/
def leBytes (n value : ℕ) : Block n :=
  ⟨(List.range n).map fun i ↦ UInt8.ofNat (value / 256 ^ i), by simp⟩

/-- The number that little-endian bytes stand for. -/
def ofLeBytes (bytes : List UInt8) : ℕ := bytes.foldr (fun byte rest ↦ byte.toNat + 256 * rest) 0

theorem toList_leBytes_succ (n value : ℕ) :
    (leBytes (n + 1) value).toList = UInt8.ofNat value :: (leBytes n (value / 256)).toList := by
  simp only [leBytes, List.Vector.toList_mk, List.range_succ_eq_map, List.map_cons, List.map_map,
    Nat.pow_zero, Nat.div_one]
  congr 2
  funext i
  rw [Function.comp_apply, Nat.succ_eq_add_one, Nat.pow_succ', Nat.div_div_eq_div_mul]

theorem ofLeBytes_leBytes (n value : ℕ) : ofLeBytes (leBytes n value).toList = value % 256 ^ n := by
  induction n generalizing value with
  | zero => rw [Nat.pow_zero, Nat.mod_one]; rfl
  | succ n ih =>
    rw [toList_leBytes_succ]
    change (UInt8.ofNat value).toNat + 256 * ofLeBytes (leBytes n (value / 256)).toList = _
    have hpow : 256 ^ (n + 1) = 256 * 256 ^ n := Nat.pow_succ'
    rw [ih, UInt8.toNat_ofNat', hpow, Nat.mod_mul]

theorem toList_leBytes_ofLeBytes (bytes : List UInt8) :
    (leBytes bytes.length (ofLeBytes bytes)).toList = bytes := by
  induction bytes with
  | nil => rfl
  | cons byte rest ih =>
    have hvalue : ofLeBytes (byte :: rest) = byte.toNat + 256 * ofLeBytes rest := rfl
    have hbyte := byte.toNat_lt
    have hrest : (byte.toNat + 256 * ofLeBytes rest) / 256 = ofLeBytes rest := by omega
    have hfirst : UInt8.ofNat (byte.toNat + 256 * ofLeBytes rest) = byte := by
      rw [← UInt8.toNat_inj, UInt8.toNat_ofNat']
      omega
    rw [List.length_cons, toList_leBytes_succ, hvalue, hrest, hfirst, ih]

/-- Reading a number and writing it back returns the bytes. -/
theorem leBytes_ofLeBytes {n : ℕ} (bytes : Block n) :
    leBytes n (ofLeBytes bytes.toList) = bytes := by
  obtain ⟨list, rfl⟩ := bytes
  exact List.Vector.eq _ _ (toList_leBytes_ofLeBytes list)

theorem ofLeBytes_lt {n : ℕ} (bytes : Block n) : ofLeBytes bytes.toList < 256 ^ n := by
  rw [← leBytes_ofLeBytes bytes, ofLeBytes_leBytes]
  exact Nat.mod_lt _ (Nat.pow_pos (by decide))

/-! ### Writes at a cursor -/

/-- A buffer with the offset at which the next field is written. -/
structure Cursor where
  buf : List UInt8
  off : ℕ

/-- `memcpy(buf + off, src, n); off += n;` -/
def Cursor.put (cursor : Cursor) (src : List UInt8) : Cursor where
  buf := cursor.buf.take cursor.off ++ src ++ cursor.buf.drop (cursor.off + src.length)
  off := cursor.off + src.length

/-- Two consecutive writes are one write of the concatenation. Assumes: a cursor inside the
buffer. -/
theorem Cursor.put_put {cursor : Cursor} (hoff : cursor.off ≤ cursor.buf.length)
    (first second : List UInt8) :
    (cursor.put first).put second = cursor.put (first ++ second) := by
  have htake : (cursor.buf.take cursor.off).length = cursor.off := by
    rw [List.length_take, Nat.min_eq_left hoff]
  have hfront : (cursor.buf.take cursor.off ++ first).length = cursor.off + first.length := by
    rw [List.length_append, htake]
  have hrest : (cursor.buf.take cursor.off ++ first ++
        cursor.buf.drop (cursor.off + first.length)).drop
          (cursor.off + first.length + second.length) =
      cursor.buf.drop (cursor.off + (first.length + second.length)) := by
    rw [← hfront, ← List.drop_drop, List.drop_left, hfront, List.drop_drop, Nat.add_assoc]
  simp only [Cursor.put, Cursor.mk.injEq, List.length_append]
  refine ⟨?_, Nat.add_assoc _ _ _⟩
  rw [hrest, ← hfront, List.take_left]
  simp only [List.append_assoc]

/-- A write from the start of a buffer overwrites a prefix and keeps the rest. -/
theorem Cursor.put_start (buf src : List UInt8) :
    ((Cursor.mk buf 0).put src).buf = src ++ buf.drop src.length := by
  simp [Cursor.put]

end ByteWire
