import Mathlib.Tactic.Common

/-!
# Strings of JSON texts

RFC 8259, section 7, over bytes in UTF-8. Between its quotes a string is a list of pieces: a byte
that stands for itself, a backslash with a letter, or a backslash with `u` and a UTF-16 unit in four
hexadecimal digits. `textOf` writes the pieces and `decode` is the string they stand for, where two
units that form a surrogate pair stand for one character, and a unit that is only half of such a
pair is replaced by U+FFFD.

A string is never longer than it is written, and with an escape it is shorter
(`length_decode_add_le`); without one it is written as it is (`decode_plain`). What is written
up to the closing quote determines the pieces (`textOf_quote_inj`).
-/

set_option autoImplicit false
set_option relaxedAutoImplicit false

namespace Json

def quote : UInt8 := 0x22

def backslash : UInt8 := 0x5c

/-- The byte stands for itself in a string. -/
def IsPlain (byte : UInt8) : Prop := 0x20 ≤ byte ∧ byte ≠ quote ∧ byte ≠ backslash

instance IsPlain.instDecidablePred : DecidablePred IsPlain := fun _ ↦
  inferInstanceAs (Decidable (_ ∧ _ ∧ _))

/-- The string is written as it is. -/
def NoEscapes (bytes : List UInt8) : Prop := ∀ byte ∈ bytes, IsPlain byte

instance NoEscapes.instDecidablePred : DecidablePred NoEscapes := fun bytes ↦
  List.decidableBAll IsPlain bytes

/-- The escapes with a letter. -/
inductive Escape
  | quote
  | backslash
  | slash
  | backspace
  | formFeed
  | lineFeed
  | carriageReturn
  | tab
deriving DecidableEq, Repr

def Escape.letter : Escape → UInt8
  | .quote => 0x22
  | .backslash => 0x5c
  | .slash => 0x2f
  | .backspace => 0x62
  | .formFeed => 0x66
  | .lineFeed => 0x6e
  | .carriageReturn => 0x72
  | .tab => 0x74

/-- The byte that the escape stands for. -/
def Escape.byte : Escape → UInt8
  | .quote => 0x22
  | .backslash => 0x5c
  | .slash => 0x2f
  | .backspace => 0x08
  | .formFeed => 0x0c
  | .lineFeed => 0x0a
  | .carriageReturn => 0x0d
  | .tab => 0x09

/-- A hexadecimal digit, with its letters in either case. -/
@[ext]
structure HexDigit where
  byte : UInt8
  isHex : 0x30 ≤ byte ∧ byte ≤ 0x39 ∨ 0x41 ≤ byte ∧ byte ≤ 0x46 ∨ 0x61 ≤ byte ∧ byte ≤ 0x66
deriving DecidableEq

def HexDigit.value (digit : HexDigit) : ℕ :=
  if digit.byte ≤ 0x39 then digit.byte.toNat - 0x30
  else if digit.byte ≤ 0x46 then digit.byte.toNat - 0x41 + 10
  else digit.byte.toNat - 0x61 + 10

theorem HexDigit.byte_ne_quote (digit : HexDigit) : digit.byte ≠ quote := by
  intro hquote
  have hhex := digit.isHex
  rw [hquote] at hhex
  exact absurd hhex (by decide)

/-- A UTF-16 unit as an escape writes it. -/
structure HexUnit where
  first : HexDigit
  second : HexDigit
  third : HexDigit
  fourth : HexDigit
deriving DecidableEq

def HexUnit.text (unit : HexUnit) : List UInt8 :=
  [unit.first.byte, unit.second.byte, unit.third.byte, unit.fourth.byte]

def HexUnit.value (unit : HexUnit) : ℕ :=
  unit.first.value * 4096 + unit.second.value * 256 + unit.third.value * 16 + unit.fourth.value

theorem HexUnit.text_inj {unit other : HexUnit} (htext : unit.text = other.text) :
    unit = other := by
  simp only [HexUnit.text, List.cons.injEq, and_true] at htext
  obtain ⟨hfirst, hsecond, hthird, hfourth⟩ := htext
  cases unit
  cases other
  rw [HexUnit.mk.injEq]
  exact ⟨HexDigit.ext hfirst, HexDigit.ext hsecond, HexDigit.ext hthird, HexDigit.ext hfourth⟩

/-- A piece of a string. -/
inductive Piece
  | plain (byte : UInt8) (isPlain : IsPlain byte)
  | escape (letter : Escape)
  | unit (hex : HexUnit)
deriving DecidableEq

def Piece.text : Piece → List UInt8
  | .plain byte _ => [byte]
  | .escape letter => [backslash, letter.letter]
  | .unit hex => backslash :: 0x75 :: hex.text

def Piece.isEscaped : Piece → Bool
  | .plain _ _ => false
  | .escape _ => true
  | .unit _ => true

/-- What stands between the quotes. -/
def textOf (pieces : List Piece) : List UInt8 := pieces.flatMap Piece.text

theorem textOf_cons (piece : Piece) (pieces : List Piece) :
    textOf (piece :: pieces) = piece.text ++ textOf pieces :=
  List.flatMap_cons

theorem Piece.length_unit (hex : HexUnit) : (Piece.unit hex).text.length = 6 := rfl

/-- A code point in UTF-8, where one that is no character is replaced. -/
def utf8 (code : ℕ) : List UInt8 :=
  String.utf8EncodeChar (if code.isValidChar then Char.ofNat code else '�')

/-- The two units are the halves of a surrogate pair. -/
def IsPair (high low : HexUnit) : Prop :=
  0xd800 ≤ high.value ∧ high.value < 0xdc00 ∧ 0xdc00 ≤ low.value ∧ low.value < 0xe000

instance IsPair.instDecidable (high low : HexUnit) : Decidable (IsPair high low) :=
  inferInstanceAs (Decidable (_ ∧ _ ∧ _ ∧ _))

/-- The string that the pieces stand for. -/
def decode : List Piece → List UInt8
  | [] => []
  | .plain byte _ :: rest => byte :: decode rest
  | .escape letter :: rest => letter.byte :: decode rest
  | .unit high :: .unit low :: rest =>
    if IsPair high low then
      utf8 (0x10000 + (high.value - 0xd800) * 0x400 + (low.value - 0xdc00)) ++ decode rest
    else utf8 high.value ++ decode (.unit low :: rest)
  | .unit hex :: rest => utf8 hex.value ++ decode rest

/-- The bytes are the UTF-8 of some characters. -/
def IsUtf8 (bytes : List UInt8) : Prop :=
  ∃ chars : List Char, chars.flatMap String.utf8EncodeChar = bytes

theorem IsUtf8.append {bytes others : List UInt8} (hbytes : IsUtf8 bytes)
    (hothers : IsUtf8 others) : IsUtf8 (bytes ++ others) := by
  obtain ⟨chars, rfl⟩ := hbytes
  obtain ⟨otherChars, rfl⟩ := hothers
  exact ⟨chars ++ otherChars, List.flatMap_append⟩

/-- Assumes: parts in UTF-8. -/
theorem isUtf8_flatMap {α : Type*} {items : List α} {write : α → List UInt8}
    (hitems : ∀ item ∈ items, IsUtf8 (write item)) : IsUtf8 (items.flatMap write) := by
  induction items with
  | nil => exact ⟨[], rfl⟩
  | cons item items ih =>
    obtain ⟨hitem, hrest⟩ := List.forall_mem_cons.mp hitems
    exact hitem.append (ih hrest)

/-- Assumes: an ASCII character. -/
theorem isUtf8_singleton {byte : UInt8} (hascii : byte.toNat < 128) : IsUtf8 [byte] := by
  have hvalid : byte.toNat.isValidChar := Or.inl (by omega)
  have hval : (Char.ofNat byte.toNat).val.toNat = byte.toNat := by
    rw [Char.ofNat, dif_pos hvalid]
    rfl
  refine ⟨[Char.ofNat byte.toNat], ?_⟩
  rw [List.flatMap_singleton, String.utf8EncodeChar]
  simp only [hval]
  rw [if_pos (by omega), UInt8.ofNat_toNat]

/-- Assumes: ASCII characters. -/
theorem isUtf8_of_ascii {bytes : List UInt8}
    (hascii : bytes.all (fun byte ↦ byte.toNat < 128) = true) : IsUtf8 bytes := by
  have hparts := isUtf8_flatMap fun byte hmem ↦
    isUtf8_singleton (of_decide_eq_true (List.all_eq_true.mp hascii byte hmem))
  rw [List.flatMap_singleton'] at hparts
  exact hparts

/-! ### Lengths -/

theorem length_utf8_le (code : ℕ) : (utf8 code).length ≤ 4 := by
  rw [utf8, String.length_utf8EncodeChar]
  exact Char.utf8Size_le_four _

/-- Each escape takes at least one byte more than what it stands for. -/
theorem length_decode_add_le (pieces : List Piece) :
    (decode pieces).length + pieces.countP Piece.isEscaped ≤ (textOf pieces).length := by
  fun_induction decode pieces with
  | case1 => exact Nat.le_refl 0
  | case2 byte isPlain rest ih =>
    simp only [textOf_cons, Piece.text, List.length_append, List.length_cons, List.length_nil,
      List.countP_cons, Piece.isEscaped, Bool.false_eq_true, if_false] at ih ⊢
    omega
  | case3 letter rest ih =>
    simp only [textOf_cons, Piece.text, List.length_append, List.length_cons, List.length_nil,
      List.countP_cons, Piece.isEscaped, if_true] at ih ⊢
    omega
  | case4 high low rest hpair ih =>
    have hutf8 :=
      length_utf8_le (0x10000 + (high.value - 0xd800) * 0x400 + (low.value - 0xdc00))
    simp only [textOf_cons, List.length_append, Piece.length_unit, List.countP_cons,
      Piece.isEscaped, if_true] at ih ⊢
    omega
  | case5 high low rest hpair ih =>
    have hutf8 := length_utf8_le high.value
    simp only [textOf_cons, List.length_append, Piece.length_unit, List.countP_cons,
      Piece.isEscaped, if_true] at ih ⊢
    omega
  | case6 hex rest hother ih =>
    have hutf8 := length_utf8_le hex.value
    simp only [textOf_cons, List.length_append, Piece.length_unit, List.countP_cons,
      Piece.isEscaped, if_true] at ih ⊢
    omega

/-- Assumes: no escapes. -/
theorem decode_plain {pieces : List Piece} (hplain : pieces.countP Piece.isEscaped = 0) :
    decode pieces = textOf pieces ∧ NoEscapes (decode pieces) := by
  induction pieces with
  | nil => exact ⟨rfl, fun _ hmem ↦ absurd hmem List.not_mem_nil⟩
  | cons piece rest ih =>
    rw [List.countP_cons] at hplain
    obtain ⟨htext, hbytes⟩ := ih (by omega)
    cases piece with
    | plain byte isPlain =>
      rw [decode, textOf_cons, ← htext]
      exact ⟨rfl, List.forall_mem_cons.mpr ⟨isPlain, hbytes⟩⟩
    | escape letter => exact absurd hplain (Nat.succ_ne_zero _)
    | unit hex => exact absurd hplain (Nat.succ_ne_zero _)

/-- The pieces that write a string as it is. -/
def plainPieces (bytes : List UInt8) (hplain : NoEscapes bytes) : List Piece :=
  bytes.pmap Piece.plain hplain

section PlainPieces

variable (bytes : List UInt8) (hplain : NoEscapes bytes)

theorem textOf_plainPieces : textOf (plainPieces bytes hplain) = bytes := by
  induction bytes with
  | nil => rfl
  | cons byte rest ih => exact congrArg (List.cons byte) (ih (List.forall_mem_cons.mp hplain).2)

theorem decode_plainPieces : decode (plainPieces bytes hplain) = bytes := by
  have hcount : (plainPieces bytes hplain).countP Piece.isEscaped = 0 := by
    rw [List.countP_eq_zero]
    intro piece hmem
    obtain ⟨byte, hbyte, rfl⟩ := List.mem_pmap.mp hmem
    exact Bool.false_ne_true
  rw [(decode_plain hcount).1, textOf_plainPieces]

end PlainPieces

/-! ### One reading -/

theorem Escape.letter_inj {letter other : Escape} (hletter : letter.letter = other.letter) :
    letter = other := by
  cases letter <;> cases other <;> first | rfl | exact absurd hletter (by decide)

/-- A piece begins with a byte other than the quote. -/
theorem Piece.text_cons (piece : Piece) :
    ∃ byte rest, piece.text = byte :: rest ∧ byte ≠ quote := by
  cases piece with
  | plain byte isPlain => exact ⟨byte, [], rfl, isPlain.2.1⟩
  | escape letter => exact ⟨backslash, _, rfl, by decide⟩
  | unit hex => exact ⟨backslash, _, rfl, by decide⟩

/-- Assumes: a piece other than an escaped quote. -/
theorem Piece.quote_notMem_text (piece : Piece) (hescaped : piece ≠ .escape .quote) :
    quote ∉ piece.text := by
  cases piece with
  | plain byte isPlain => exact fun hmem ↦ isPlain.2.1 (List.mem_singleton.mp hmem).symm
  | escape letter =>
    cases letter with
    | quote => exact absurd rfl hescaped
    | _ => decide
  | unit hex =>
    intro hmem
    simp only [Piece.text, HexUnit.text, List.mem_cons, List.not_mem_nil, or_false] at hmem
    rcases hmem with hmark | hmark | hdigit | hdigit | hdigit | hdigit
    · exact absurd hmark (by decide)
    · exact absurd hmark (by decide)
    · exact hex.first.byte_ne_quote hdigit.symm
    · exact hex.second.byte_ne_quote hdigit.symm
    · exact hex.third.byte_ne_quote hdigit.symm
    · exact hex.fourth.byte_ne_quote hdigit.symm

/-- Assumes: pieces with the same text, whatever follows them. -/
theorem Piece.text_append_inj {piece other : Piece} {rest otherRest : List UInt8}
    (htext : piece.text ++ rest = other.text ++ otherRest) :
    piece = other ∧ rest = otherRest := by
  have hmark : ∀ letter : Escape, letter.letter ≠ 0x75 := by
    intro letter
    cases letter <;> decide
  cases piece with
  | plain byte isPlain =>
    cases other with
    | plain byte' isPlain' =>
      obtain ⟨rfl, hrest⟩ := List.cons.inj htext
      exact ⟨rfl, hrest⟩
    | escape letter => exact absurd (List.cons.inj htext).1 isPlain.2.2
    | unit hex => exact absurd (List.cons.inj htext).1 isPlain.2.2
  | escape letter =>
    cases other with
    | plain byte isPlain => exact absurd (List.cons.inj htext).1.symm isPlain.2.2
    | escape letter' =>
      obtain ⟨hletter, hrest⟩ := List.cons.inj (List.cons.inj htext).2
      rw [Escape.letter_inj hletter]
      exact ⟨rfl, hrest⟩
    | unit hex => exact absurd (List.cons.inj (List.cons.inj htext).2).1 (hmark letter)
  | unit hex =>
    cases other with
    | plain byte isPlain => exact absurd (List.cons.inj htext).1.symm isPlain.2.2
    | escape letter =>
      exact absurd (List.cons.inj (List.cons.inj htext).2).1.symm (hmark letter)
    | unit hex' =>
      have hdigits := (List.cons.inj (List.cons.inj htext).2).2
      obtain ⟨hhex, hrest⟩ := List.append_inj hdigits rfl
      rw [HexUnit.text_inj hhex]
      exact ⟨rfl, hrest⟩

/-- Assumes: strings with the same text up to the closing quote, whatever follows it. -/
theorem textOf_quote_inj {pieces : List Piece} :
    ∀ {others : List Piece} {rest otherRest : List UInt8},
      textOf pieces ++ quote :: rest = textOf others ++ quote :: otherRest →
        pieces = others ∧ rest = otherRest := by
  induction pieces with
  | nil =>
    intro others rest otherRest htext
    cases others with
    | nil => exact ⟨rfl, (List.cons.inj htext).2⟩
    | cons other others =>
      obtain ⟨byte, after, hother, hbyte⟩ := other.text_cons
      rw [textOf_cons, hother] at htext
      exact absurd (List.cons.inj htext).1.symm hbyte
  | cons piece pieces ih =>
    intro others rest otherRest htext
    cases others with
    | nil =>
      obtain ⟨byte, after, hpiece, hbyte⟩ := piece.text_cons
      rw [textOf_cons, hpiece] at htext
      exact absurd (List.cons.inj htext).1 hbyte
    | cons other others =>
      rw [textOf_cons, textOf_cons, List.append_assoc, List.append_assoc] at htext
      obtain ⟨rfl, hremaining⟩ := Piece.text_append_inj htext
      obtain ⟨rfl, hrest⟩ := ih hremaining
      exact ⟨rfl, hrest⟩

end Json
