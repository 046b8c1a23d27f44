import KoeCore.Identity.File
import Mathlib.Data.List.Induction
import Mathlib.Data.Nat.Digits.Lemmas
import Mathlib.Data.UInt

/-!
# Short ids

`koe_identity_short_id` writes the first eight bytes of a public key as a number in base 58. The
digits are written from the end of the buffer, by a loop that stops when no digits are left or when
it is at the front, and what is left in front is filled with the digit zero.

A number of 64 bits has at most eleven digits, since `2 ^ 64 < 58 ^ 11`, and the buffer has fifteen
places. `exists_writesDigits` is the positional notation: given as many places as the number needs,
the loop writes its digits and stops because none is left. `shortIdNumber_eq` says that the number
is that of the bytes, and `koeIdentityShortId_base58` puts the two together: nothing is cut off, and
keys have one short id exactly when they agree on their first eight bytes.
-/

set_option autoImplicit false
set_option relaxedAutoImplicit false

namespace KoeCore

open ByteWire

/-! ### Numbers in base 256 and in base 58 -/

/-- The number that bytes spell, the most significant first. -/
def bigEndian (bytes : List UInt8) : ℕ := Nat.ofDigits 256 (bytes.reverse.map UInt8.toNat)

/-- The number that characters of the alphabet spell, the most significant first. The digit of a
character is its position in the alphabet. -/
def base58Value (chars : List UInt8) : ℕ :=
  Nat.ofDigits 58 (chars.reverse.map fun char ↦ b58Alpha.idxOf char)

/-- The character of a digit. -/
def b58Char (digit : ℕ) : UInt8 := byteAt digit b58Alpha

/-- The alphabet is evaluated once. -/
theorem map_toNat_b58Alpha : b58Alpha.map UInt8.toNat =
    [49, 50, 51, 52, 53, 54, 55, 56, 57, 65, 66, 67, 68, 69, 70, 71, 72, 74, 75, 76, 77, 78, 80, 81,
      82, 83, 84, 85, 86, 87, 88, 89, 90, 97, 98, 99, 100, 101, 102, 103, 104, 105, 106, 107, 109,
      110, 111, 112, 113, 114, 115, 116, 117, 118, 119, 120, 121, 122] := by
  decide +kernel

theorem length_b58Alpha : b58Alpha.length = 58 := by
  rw [← List.length_map, map_toNat_b58Alpha]
  rfl

/-- The characters of the alphabet are in ascending order. -/
theorem nodup_b58Alpha : b58Alpha.Nodup := by
  have hchain : (b58Alpha.map UInt8.toNat).IsChain (· < ·) := by
    rw [map_toNat_b58Alpha]
    decide
  have hascending := List.isChain_iff_pairwise.mp hchain
  exact hascending.nodup.of_map

/-- Assumes: a digit. -/
theorem b58Char_eq_getElem {digit : ℕ} (hdigit : digit < b58Alpha.length) :
    b58Char digit = b58Alpha[digit] := by
  rw [b58Char, byteAt, List.getD_eq_getElem?_getD, List.getElem?_eq_getElem hdigit,
    Option.getD_some]

/-- Assumes: digits. -/
theorem base58Value_map_b58Char {digits : List ℕ} (hdigits : ∀ digit ∈ digits, digit < 58) :
    base58Value (digits.map b58Char) = Nat.ofDigits 58 digits.reverse := by
  have hdigit : ∀ digit ∈ digits.reverse, b58Alpha.idxOf (b58Char digit) = digit := by
    intro digit hmem
    have hlt : digit < b58Alpha.length :=
      length_b58Alpha ▸ hdigits digit (List.mem_reverse.mp hmem)
    rw [b58Char_eq_getElem hlt, nodup_b58Alpha.idxOf_getElem]
  rw [base58Value, ← List.map_reverse, List.map_map]
  exact congrArg (Nat.ofDigits 58) ((List.map_congr_left hdigit).trans (List.map_id' _))

theorem toNat_lt_of_mem_map (bytes : List UInt8) :
    ∀ digit ∈ bytes.reverse.map UInt8.toNat, digit < 256 := by
  intro digit hdigit
  obtain ⟨byte, -, rfl⟩ := List.mem_map.mp hdigit
  exact byte.toNat_lt

theorem bigEndian_lt (bytes : List UInt8) : bigEndian bytes < 256 ^ bytes.length := by
  have hlt := Nat.ofDigits_lt_base_pow_length (by omega) (toNat_lt_of_mem_map bytes)
  rwa [List.length_map, List.length_reverse] at hlt

/-- Assumes: as many bytes on both sides. -/
theorem bigEndian_injective {first second : List UInt8} (hlength : first.length = second.length)
    (hvalue : bigEndian first = bigEndian second) : first = second := by
  have hdigits := Nat.ofDigits_inj_of_len_eq (by omega) (by simpa using hlength)
    (toNat_lt_of_mem_map first) (toNat_lt_of_mem_map second) hvalue
  have hreverse : first.reverse = second.reverse :=
    List.map_injective_iff.mpr (fun _ _ ↦ UInt8.toNat_inj.mp) hdigits
  exact List.reverse_injective hreverse

/-! ### The number of a key -/

/-- The number in `val` after the first loop. -/
def shortIdNumber (bytes : List UInt8) : UInt64 :=
  bytes.foldl (fun val byte ↦ val <<< 8 ||| byte.toUInt64) 0

/-- Shifting in a byte. Assumes: eight bits of room. -/
theorem toNat_shiftLeft_or {val : UInt64} (hroom : val.toNat < 2 ^ 56) (byte : UInt8) :
    (val <<< 8 ||| byte.toUInt64).toNat = byte.toNat + 256 * val.toNat := by
  have hbyte : byte.toNat < 2 ^ 8 := byte.toNat_lt
  have hshift : (val <<< 8).toNat = val.toNat <<< 8 := by
    rw [UInt64.toNat_shiftLeft]
    refine Nat.mod_eq_of_lt ?_
    change val.toNat <<< 8 < 2 ^ 64
    rw [Nat.shiftLeft_eq]
    omega
  rw [UInt64.toNat_or, hshift, UInt8.toNat_toUInt64, ← Nat.shiftLeft_add_eq_or_of_lt hbyte,
    Nat.shiftLeft_eq]
  omega

/-- The number is the one that the bytes spell. Assumes: no more bytes than fit. -/
theorem shortIdNumber_eq (bytes : List UInt8) (hlength : bytes.length ≤ 8) :
    (shortIdNumber bytes).toNat = bigEndian bytes := by
  induction bytes using List.reverseRecOn with
  | nil => rfl
  | append_singleton bytes byte ih =>
    rw [List.length_append, List.length_singleton] at hlength
    have hfront : (shortIdNumber bytes).toNat = bigEndian bytes := ih (by omega)
    have hroom : (shortIdNumber bytes).toNat < 2 ^ 56 := by
      have hbytes : 256 ^ bytes.length ≤ 256 ^ 7 := Nat.pow_le_pow_right (by omega) (by omega)
      have hlt := bigEndian_lt bytes
      omega
    have hnumber : shortIdNumber (bytes ++ [byte]) = shortIdNumber bytes <<< 8 ||| byte.toUInt64 :=
      List.foldl_append
    rw [hnumber, toNat_shiftLeft_or hroom, hfront, bigEndian, bigEndian, List.reverse_append,
      List.reverse_singleton, List.singleton_append, List.map_cons, Nat.ofDigits_cons]

/-! ### The digits -/

theorem toNat_div_58 (val : UInt64) : (val / 58).toNat = val.toNat / 58 := UInt64.toNat_div val 58

/-- A round that finds one digit. Assumes: a number below 58. -/
theorem shortIdLoop_last {val : UInt64} (hval : val.toNat < 58) (pos : ℕ) (chars : List UInt8) :
    shortIdLoop (pos + 1) val chars = (pos, b58Char val.toNat :: chars) := by
  have hzero : val / 58 = 0 := by
    rw [← UInt64.toNat_inj, toNat_div_58, Nat.div_eq_of_lt hval]
    rfl
  have hdigit : (val % 58).toNat = val.toNat :=
    (UInt64.toNat_mod val 58).trans (Nat.mod_eq_of_lt hval)
  rw [shortIdLoop, hzero, hdigit, if_neg (not_not.mpr rfl)]
  rfl

/-- A round that leaves digits for the next. Assumes: a number from 58 on. -/
theorem shortIdLoop_more {val : UInt64} (hval : 58 ≤ val.toNat) (pos : ℕ) (chars : List UInt8) :
    shortIdLoop (pos + 1) val chars =
      shortIdLoop pos (val / 58) (b58Char (val.toNat % 58) :: chars) := by
  have hmore : val / 58 ≠ 0 := by
    intro hzero
    have hdiv := toNat_div_58 val
    rw [hzero, UInt64.toNat_zero] at hdiv
    omega
  rw [shortIdLoop, if_pos hmore, UInt64.toNat_mod]
  rfl

/-- The digits of a number are written in front of the given characters, and the loop stops because
none is left. -/
structure WritesDigits (digits : List ℕ) (pos : ℕ) (val : UInt64) (chars : List UInt8) : Prop where
  digits_lt : ∀ digit ∈ digits, digit < 58
  value : Nat.ofDigits 58 digits.reverse = val.toNat
  loop : shortIdLoop pos val chars = (pos - digits.length, digits.map b58Char ++ chars)

/-- Padding is made of digits. -/
theorem WritesDigits.padded_lt {digits : List ℕ} {pos : ℕ} {val : UInt64} {chars : List UInt8}
    (hwrites : WritesDigits digits pos val chars) (n : ℕ) :
    ∀ digit ∈ List.replicate n 0 ++ digits, digit < 58 := by
  intro digit hdigit
  rcases List.mem_append.mp hdigit with hpadding | hwritten
  · rw [List.eq_of_mem_replicate hpadding]
    omega
  · exact hwrites.digits_lt digit hwritten

/-- Assumes: a number below 58. -/
theorem writesDigits_singleton {val : UInt64} (hval : val.toNat < 58) (pos : ℕ)
    (chars : List UInt8) : WritesDigits [val.toNat] (pos + 1) val chars where
  digits_lt := by
    intro digit hdigit
    rw [List.mem_singleton.mp hdigit]
    exact hval
  value := Nat.ofDigits_singleton
  loop := shortIdLoop_last hval pos chars

/-- Assumes: a number from 58 on, and the digits of its quotient. -/
theorem WritesDigits.append {digits : List ℕ} {pos : ℕ} {val : UInt64} {chars : List UInt8}
    (hval : 58 ≤ val.toNat)
    (hwrites : WritesDigits digits pos (val / 58) (b58Char (val.toNat % 58) :: chars)) :
    WritesDigits (digits ++ [val.toNat % 58]) (pos + 1) val chars where
  digits_lt := by
    intro digit hdigit
    rcases List.mem_append.mp hdigit with hfront | hlast
    · exact hwrites.digits_lt digit hfront
    · rw [List.mem_singleton.mp hlast]
      exact Nat.mod_lt _ (by omega)
  value := by
    rw [List.reverse_append, List.reverse_singleton, List.singleton_append, Nat.ofDigits_cons,
      hwrites.value, toNat_div_58, Nat.mod_add_div]
  loop := by
    have hpos : pos + 1 - (digits.length + 1) = pos - digits.length := by omega
    rw [shortIdLoop_more hval, hwrites.loop, List.length_append, List.length_singleton, hpos,
      List.map_append, List.append_assoc]
    rfl

/-- With places for all its digits, the digits of a number are written. Assumes: a number of at most
`k + 1` digits, and as many places. -/
theorem exists_writesDigits (k : ℕ) :
    ∀ (pos : ℕ) (val : UInt64) (chars : List UInt8), val.toNat < 58 ^ (k + 1) → k < pos →
      ∃ digits : List ℕ, digits.length ≤ k + 1 ∧ WritesDigits digits pos val chars := by
  induction k with
  | zero =>
    intro pos val chars hval hpos
    obtain ⟨front, rfl⟩ : ∃ front, pos = front + 1 := ⟨pos - 1, by omega⟩
    exact ⟨[val.toNat], Nat.le_refl _, writesDigits_singleton (by omega) front chars⟩
  | succ k ih =>
    intro pos val chars hval hpos
    obtain ⟨front, rfl⟩ : ∃ front, pos = front + 1 := ⟨pos - 1, by omega⟩
    by_cases hlast : val.toNat < 58
    · exact ⟨[val.toNat], by simp, writesDigits_singleton hlast front chars⟩
    · have hrest : (val / 58).toNat < 58 ^ (k + 1) := by
        rw [toNat_div_58]
        exact Nat.div_lt_of_lt_mul (by rwa [← Nat.pow_succ'])
      obtain ⟨digits, hlength, hwrites⟩ :=
        ih front (val / 58) (b58Char (val.toNat % 58) :: chars) hrest (by omega)
      refine ⟨digits ++ [val.toNat % 58], ?_, hwrites.append (by omega)⟩
      rw [List.length_append, List.length_singleton]
      omega

/-! ### The short id -/

/-- The array of the record after the call: what `strncpy` copies, and the zero byte that is put at
its end. -/
def shortIdValue (pk : Block 32) : Block koeShortIdLen :=
  clip koeShortIdLen (koeIdentityShortId pk)

/-- The short id consists of the padding and of the digits of the number, which has at most
eleven. -/
theorem koeIdentityShortId_digits (pk : Block 32) :
    ∃ digits : List ℕ, digits.length ≤ 11 ∧
      WritesDigits digits 15 (shortIdNumber (pk.toList.take 8)) [] ∧
      koeIdentityShortId pk = (List.replicate (15 - digits.length) 0 ++ digits).map b58Char := by
  -- Eleven digits are enough for 64 bits.
  have hval : (shortIdNumber (pk.toList.take 8)).toNat < 58 ^ (10 + 1) :=
    Nat.lt_trans (UInt64.toNat_lt _) (by omega)
  obtain ⟨digits, hlength, hwrites⟩ :=
    exists_writesDigits 10 15 (shortIdNumber (pk.toList.take 8)) [] hval (by omega)
  refine ⟨digits, hlength, hwrites, ?_⟩
  have hloop : shortIdLoop 15 (shortIdNumber (pk.toList.take 8)) [] =
      (15 - digits.length, digits.map b58Char) := by
    rw [hwrites.loop, List.append_nil]
  have hpadded : koeIdentityShortId pk =
      strncpy 15 (List.replicate (15 - digits.length) 0x31 ++ digits.map b58Char) := by
    change strncpy 15
      (List.replicate (shortIdLoop 15 (shortIdNumber (pk.toList.take 8)) []).1 0x31 ++
        (shortIdLoop 15 (shortIdNumber (pk.toList.take 8)) []).2) = _
    rw [hloop]
  have hone : (0x31 : UInt8) = b58Char 0 := by decide +kernel
  rw [hpadded, strncpy, hone, ← List.map_replicate, ← List.map_append, List.take_of_length_le]
  rw [List.length_map, List.length_append, List.length_replicate]
  omega

theorem length_koeIdentityShortId (pk : Block 32) : (koeIdentityShortId pk).length = 15 := by
  obtain ⟨digits, hlength, -, hdigits⟩ := koeIdentityShortId_digits pk
  rw [hdigits, List.length_map, List.length_append, List.length_replicate]
  omega

theorem mem_b58Alpha_of_mem_shortId (pk : Block 32) :
    ∀ char ∈ koeIdentityShortId pk, char ∈ b58Alpha := by
  obtain ⟨digits, -, hwrites, hdigits⟩ := koeIdentityShortId_digits pk
  intro char hchar
  rw [hdigits] at hchar
  obtain ⟨digit, hdigit, rfl⟩ := List.mem_map.mp hchar
  have hlt : digit < b58Alpha.length := length_b58Alpha ▸ hwrites.padded_lt _ digit hdigit
  rw [b58Char_eq_getElem hlt]
  exact List.getElem_mem hlt

theorem base58Value_koeIdentityShortId (pk : Block 32) :
    base58Value (koeIdentityShortId pk) = bigEndian (pk.toList.take 8) := by
  obtain ⟨digits, -, hwrites, hdigits⟩ := koeIdentityShortId_digits pk
  rw [hdigits, base58Value_map_b58Char (hwrites.padded_lt _), List.reverse_append,
    List.reverse_replicate, Nat.ofDigits_append_replicate_zero, hwrites.value]
  exact shortIdNumber_eq _ (by simp)

theorem toList_shortIdValue (pk : Block 32) :
    (shortIdValue pk).toList = koeIdentityShortId pk ++ [0] := by
  have hlength := length_koeIdentityShortId pk
  change (koeIdentityShortId pk).take 16 ++
    List.replicate (16 - (koeIdentityShortId pk).length) 0 = _
  rw [List.take_of_length_le (by omega), hlength]
  rfl

/-- The short id of a key is fifteen characters of the alphabet and a zero byte. In base 58 they are
the number that the first eight bytes of the key spell, and the loop that writes them never comes
to the front of the buffer. Two keys have the same short id exactly when their first eight bytes are
the same. -/
theorem koeIdentityShortId_base58 (pk : Block 32) :
    (shortIdValue pk).toList = koeIdentityShortId pk ++ [0] ∧
      (koeIdentityShortId pk).length = 15 ∧
      (∀ char ∈ koeIdentityShortId pk, char ∈ b58Alpha) ∧
      base58Value (koeIdentityShortId pk) = bigEndian (pk.toList.take 8) ∧
      0 < (shortIdLoop 15 (shortIdNumber (pk.toList.take 8)) []).1 ∧
      ∀ other : Block 32, shortIdValue pk = shortIdValue other ↔
        pk.toList.take 8 = other.toList.take 8 := by
  refine ⟨toList_shortIdValue pk, length_koeIdentityShortId pk, mem_b58Alpha_of_mem_shortId pk,
    base58Value_koeIdentityShortId pk, ?_, ?_⟩
  · obtain ⟨digits, hlength, hwrites, -⟩ := koeIdentityShortId_digits pk
    rw [hwrites.loop]
    change 0 < 15 - digits.length
    omega
  · intro other
    constructor
    · intro hvalue
      have hchars : koeIdentityShortId pk = koeIdentityShortId other := by
        have hlist := congrArg List.Vector.toList hvalue
        rw [toList_shortIdValue, toList_shortIdValue] at hlist
        exact List.append_cancel_right hlist
      have hnumber : bigEndian (pk.toList.take 8) = bigEndian (other.toList.take 8) := by
        rw [← base58Value_koeIdentityShortId, hchars, base58Value_koeIdentityShortId]
      exact bigEndian_injective (by simp) hnumber
    · intro hbytes
      rw [shortIdValue, koeIdentityShortId, hbytes]
      rfl

end KoeCore
