import KoeCore.Library.JsonString

/-!
# JSON texts

RFC 8259 for texts whose leaves are strings. A text is a row of tokens, the six structural
characters and the strings, with insignificant whitespace in front of each and at the end (`Lexes`).
A value is written by its tokens (`Value.tokens`), and a text reads as a value when it consists of
the value's tokens (`Reads`). No text reads as two values (`Reads.unique`).

The shortest text of a value has no whitespace and writes each string as it is (`Value.compact`).
Every text of the value is at least as long, and one that is no longer has no string with an escape
in it (`Lexes.length_compact_le`, `Lexes.plain_of_length_le`). So the shortest text of an object,
cut after so many bytes, is a text of the object exactly when no string needs escapes and nothing
was cut off (`isObject_take_iff`).
-/

set_option autoImplicit false
set_option relaxedAutoImplicit false

namespace Json

/-! ### Tokens -/

/-- The structural characters. -/
inductive Mark
  | beginArray
  | beginObject
  | endArray
  | endObject
  | nameSeparator
  | valueSeparator
deriving DecidableEq, Repr

def Mark.byte : Mark → UInt8
  | .beginArray => 0x5b
  | .beginObject => 0x7b
  | .endArray => 0x5d
  | .endObject => 0x7d
  | .nameSeparator => 0x3a
  | .valueSeparator => 0x2c

theorem Mark.byte_inj {mark other : Mark} (hbyte : mark.byte = other.byte) : mark = other := by
  cases mark <;> cases other <;> first | rfl | exact absurd hbyte (by decide)

theorem Mark.byte_ne_quote (mark : Mark) : mark.byte ≠ quote := by
  cases mark <;> decide

/-- The byte is insignificant whitespace. -/
def isBlank (byte : UInt8) : Bool := byte == 0x20 || byte == 0x09 || byte == 0x0a || byte == 0x0d

theorem Mark.isBlank_byte (mark : Mark) : isBlank mark.byte = false := by
  cases mark <;> decide

/-- Insignificant whitespace. -/
abbrev Gap := {bytes : List UInt8 // bytes.all isBlank = true}

def Gap.none : Gap := ⟨[], rfl⟩

inductive Token
  | mark (char : Mark)
  | string (bytes : List UInt8)
deriving DecidableEq, Repr

/-- The text is a row of tokens. -/
inductive Lexes : List UInt8 → List Token → Prop
  | done (gap : Gap) : Lexes gap.val []
  | mark (gap : Gap) (char : Mark) {text : List UInt8} {tokens : List Token}
      (rest : Lexes text tokens) : Lexes (gap.val ++ char.byte :: text) (.mark char :: tokens)
  | string (gap : Gap) (pieces : List Piece) {text : List UInt8} {tokens : List Token}
      (rest : Lexes text tokens) :
      Lexes (gap.val ++ quote :: (textOf pieces ++ quote :: text))
        (.string (decode pieces) :: tokens)

theorem dropWhile_gap (gap : Gap) (text : List UInt8) :
    (gap.val ++ text).dropWhile isBlank = text.dropWhile isBlank := by
  rw [List.dropWhile_append_of_pos]
  exact fun byte hmem ↦ List.all_eq_true.mp gap.property byte hmem

/-- Assumes: texts that agree, each of them whitespace, a byte that is none, and the rest. -/
theorem gap_append_inj {gap other : Gap} {byte otherByte : UInt8} {text otherText : List UInt8}
    (hbyte : isBlank byte = false) (hother : isBlank otherByte = false)
    (htexts : gap.val ++ byte :: text = other.val ++ otherByte :: otherText) :
    byte = otherByte ∧ text = otherText := by
  have hdrop := congrArg (List.dropWhile isBlank) htexts
  rw [dropWhile_gap, dropWhile_gap, List.dropWhile_cons_of_neg (by rw [hbyte]; decide),
    List.dropWhile_cons_of_neg (by rw [hother]; decide)] at hdrop
  exact List.cons.inj hdrop

/-- Assumes: a text that is only whitespace. -/
theorem gap_ne_append {gap other : Gap} {byte : UInt8} {text : List UInt8}
    (hbyte : isBlank byte = false) : gap.val ≠ other.val ++ byte :: text := by
  intro htexts
  have hmem : byte ∈ gap.val := by
    rw [htexts]
    exact List.mem_append_right _ List.mem_cons_self
  exact absurd (hbyte.symm.trans (List.all_eq_true.mp gap.property byte hmem)) (by decide)

theorem Lexes.unique {text : List UInt8} {tokens : List Token} (hlexes : Lexes text tokens) :
    ∀ {others : List Token}, Lexes text others → tokens = others := by
  have hquote : isBlank quote = false := by decide
  induction hlexes with
  | done gap =>
    intro others hothers
    generalize htext : gap.val = text at hothers
    cases hothers with
    | done other => rfl
    | mark other char rest => exact absurd htext (gap_ne_append char.isBlank_byte)
    | string other pieces rest => exact absurd htext (gap_ne_append hquote)
  | mark gap char rest ih =>
    intro others hothers
    generalize htext : gap.val ++ char.byte :: _ = text at hothers
    cases hothers with
    | done other => exact absurd htext.symm (gap_ne_append char.isBlank_byte)
    | mark other otherChar otherRest =>
      obtain ⟨hchar, rfl⟩ := gap_append_inj char.isBlank_byte otherChar.isBlank_byte htext
      rw [Mark.byte_inj hchar, ih otherRest]
    | string other pieces otherRest =>
      obtain ⟨hchar, -⟩ := gap_append_inj char.isBlank_byte hquote htext
      exact absurd hchar char.byte_ne_quote
  | string gap pieces rest ih =>
    intro others hothers
    generalize htext : gap.val ++ quote :: _ = text at hothers
    cases hothers with
    | done other => exact absurd htext.symm (gap_ne_append hquote)
    | mark other otherChar otherRest =>
      obtain ⟨hchar, -⟩ := gap_append_inj hquote otherChar.isBlank_byte htext
      exact absurd hchar.symm otherChar.byte_ne_quote
    | string other otherPieces otherRest =>
      obtain ⟨-, hstring⟩ := gap_append_inj hquote hquote htext
      obtain ⟨rfl, rfl⟩ := textOf_quote_inj hstring
      rw [ih otherRest]

/-! ### The shortest text -/

/-- The token without whitespace or escapes. -/
def Token.compact : Token → List UInt8
  | .mark char => [char.byte]
  | .string bytes => quote :: (bytes ++ [quote])

/-- The predicate holds for the token if this is a string. -/
def Token.Holds (p : List UInt8 → Prop) : Token → Prop
  | .mark _ => True
  | .string bytes => p bytes

@[simp]
theorem Token.holds_mark (p : List UInt8 → Prop) (char : Mark) : (Token.mark char).Holds p :=
  trivial

@[simp]
theorem Token.holds_string (p : List UInt8 → Prop) (bytes : List UInt8) :
    (Token.string bytes).Holds p ↔ p bytes :=
  Iff.rfl

/-- Assumes: no string that needs escapes. -/
theorem Lexes.of_plain {tokens : List Token} (hplain : ∀ token ∈ tokens, token.Holds NoEscapes) :
    Lexes (tokens.flatMap Token.compact) tokens := by
  induction tokens with
  | nil => exact .done .none
  | cons token tokens ih =>
    obtain ⟨htoken, hrest⟩ := List.forall_mem_cons.mp hplain
    cases token with
    | mark char => exact .mark .none char (ih hrest)
    | string bytes =>
      have hbytes : NoEscapes bytes := htoken
      have hlexes := Lexes.string .none (plainPieces bytes hbytes) (ih hrest)
      rw [textOf_plainPieces, decode_plainPieces] at hlexes
      rw [List.flatMap_cons, Token.compact, List.cons_append, List.append_assoc]
      exact hlexes

/-- No text of the tokens is shorter than the shortest one. -/
theorem Lexes.length_compact_le {text : List UInt8} {tokens : List Token}
    (hlexes : Lexes text tokens) : (tokens.flatMap Token.compact).length ≤ text.length := by
  induction hlexes with
  | done gap => exact Nat.zero_le _
  | mark gap char rest ih =>
    simp only [List.flatMap_cons, Token.compact, List.length_append, List.length_cons,
      List.length_nil]
    omega
  | string gap pieces rest ih =>
    have hpieces := length_decode_add_le pieces
    simp only [List.flatMap_cons, Token.compact, List.length_append, List.length_cons,
      List.length_nil]
    omega

/-- Assumes: a text as short as the shortest one. -/
theorem Lexes.plain_of_length_le {text : List UInt8} {tokens : List Token}
    (hlexes : Lexes text tokens) (hlength : text.length ≤ (tokens.flatMap Token.compact).length) :
    ∀ token ∈ tokens, token.Holds NoEscapes := by
  induction hlexes with
  | done gap => exact fun _ hmem ↦ absurd hmem List.not_mem_nil
  | mark gap char rest ih =>
    simp only [List.flatMap_cons, Token.compact, List.length_append, List.length_cons,
      List.length_nil] at hlength
    exact List.forall_mem_cons.mpr ⟨trivial, ih (by omega)⟩
  | string gap pieces rest ih =>
    have hpieces := length_decode_add_le pieces
    have hshortest := rest.length_compact_le
    simp only [List.flatMap_cons, Token.compact, List.length_append, List.length_cons,
      List.length_nil] at hlength
    exact List.forall_mem_cons.mpr ⟨(decode_plain (by omega)).2, ih (by omega)⟩

/-! ### Values -/

inductive Value
  | string (bytes : List UInt8)
  | array (items : List Value)
  | object (members : List (List UInt8 × Value))

mutual

def Value.tokens : Value → List Token
  | .string bytes => [.string bytes]
  | .array items => .mark .beginArray :: ((itemTokens items).tail ++ [.mark .endArray])
  | .object members => .mark .beginObject :: ((memberTokens members).tail ++ [.mark .endObject])

/-- The items, each with a separator in front. -/
def itemTokens : List Value → List Token
  | [] => []
  | item :: items => .mark .valueSeparator :: (item.tokens ++ itemTokens items)

/-- The members, each with a separator in front. -/
def memberTokens : List (List UInt8 × Value) → List Token
  | [] => []
  | (name, value) :: members =>
    .mark .valueSeparator :: .string name :: .mark .nameSeparator ::
      (value.tokens ++ memberTokens members)

end

/-- The text is a JSON text of the value. -/
def Reads (text : List UInt8) (value : Value) : Prop := Lexes text value.tokens

/-- The shortest text that reads as the value when no string needs escapes. -/
def Value.compact (value : Value) : List UInt8 := value.tokens.flatMap Token.compact

/-- No tokens, or a separator and a token other than the closing one in front. -/
def Separated (closing : Token) (tokens : List Token) : Prop :=
  tokens = [] ∨
    ∃ first rest, tokens = .mark .valueSeparator :: first :: rest ∧ first ≠ closing

theorem itemTokens_separated (items : List Value) :
    Separated (.mark .endArray) (itemTokens items) := by
  cases items with
  | nil => exact Or.inl itemTokens.eq_1
  | cons item items =>
    refine Or.inr ?_
    rw [itemTokens]
    cases item with
    | string bytes => exact ⟨_, _, by rw [Value.tokens]; rfl, Token.noConfusion⟩
    | array items => exact ⟨_, _, by rw [Value.tokens]; rfl, by decide⟩
    | object members => exact ⟨_, _, by rw [Value.tokens]; rfl, by decide⟩

theorem memberTokens_separated (members : List (List UInt8 × Value)) :
    Separated (.mark .endObject) (memberTokens members) := by
  cases members with
  | nil => exact Or.inl memberTokens.eq_1
  | cons member members =>
    refine Or.inr ?_
    rw [memberTokens]
    exact ⟨_, _, rfl, Token.noConfusion⟩

/-- The predicate holds for every string in the value, the names of members included. -/
def Value.Holds (p : List UInt8 → Prop) (value : Value) : Prop :=
  ∀ token ∈ value.tokens, token.Holds p

section Holds

variable {p : List UInt8 → Prop}

@[simp]
theorem Value.holds_string (bytes : List UInt8) : (Value.string bytes).Holds p ↔ p bytes := by
  rw [Value.Holds, Value.tokens, List.forall_mem_singleton, Token.holds_string]

/-- Assumes: a first separator, if any. -/
theorem Separated.holds_tail {closing : Token} {tokens : List Token}
    (hseparated : Separated closing tokens) :
    (∀ token ∈ tokens.tail, token.Holds p) ↔ ∀ token ∈ tokens, token.Holds p := by
  rcases hseparated with rfl | ⟨first, rest, rfl, -⟩
  · rfl
  · have hmark := Token.holds_mark p .valueSeparator
    exact ⟨fun hrest ↦ List.forall_mem_cons.mpr ⟨hmark, hrest⟩,
      fun hall ↦ (List.forall_mem_cons.mp hall).2⟩

@[simp]
theorem Value.holds_array (items : List Value) :
    (Value.array items).Holds p ↔ ∀ item ∈ items, item.Holds p := by
  have hitems : (∀ token ∈ itemTokens items, token.Holds p) ↔ ∀ item ∈ items, item.Holds p := by
    induction items with
    | nil => simp only [itemTokens, List.not_mem_nil, IsEmpty.forall_iff, implies_true]
    | cons item items ih =>
      rw [itemTokens, List.forall_mem_cons, List.forall_mem_append, ih, List.forall_mem_cons,
        and_iff_right (Token.holds_mark _ _), Value.Holds]
  rw [← hitems, Value.Holds, Value.tokens, List.forall_mem_cons, List.forall_mem_append,
    List.forall_mem_singleton, (itemTokens_separated items).holds_tail]
  simp only [Token.holds_mark, and_true, true_and]

@[simp]
theorem Value.holds_object (members : List (List UInt8 × Value)) :
    (Value.object members).Holds p ↔ ∀ member ∈ members, p member.1 ∧ member.2.Holds p := by
  have hmembers : (∀ token ∈ memberTokens members, token.Holds p) ↔
      ∀ member ∈ members, p member.1 ∧ member.2.Holds p := by
    induction members with
    | nil => simp only [memberTokens, List.not_mem_nil, IsEmpty.forall_iff, implies_true]
    | cons member members ih =>
      simp only [memberTokens, List.forall_mem_cons, List.forall_mem_append, ih, Token.holds_mark,
        Token.holds_string, true_and, and_assoc]
      rfl
  rw [← hmembers, Value.Holds, Value.tokens, List.forall_mem_cons, List.forall_mem_append,
    List.forall_mem_singleton, (memberTokens_separated members).holds_tail]
  simp only [Token.holds_mark, and_true, true_and]

end Holds

/-- Assumes: a value without strings that need escapes. -/
theorem reads_compact {value : Value} (hplain : value.Holds NoEscapes) :
    Reads value.compact value :=
  Lexes.of_plain hplain

/-- Assumes: a value with strings in UTF-8. -/
theorem isUtf8_compact {value : Value} (hutf8 : value.Holds IsUtf8) : IsUtf8 value.compact := by
  have hquote : IsUtf8 [quote] := isUtf8_singleton (by decide)
  refine isUtf8_flatMap fun token hmem ↦ ?_
  cases token with
  | mark char => exact isUtf8_singleton (by cases char <;> decide)
  | string bytes => exact hquote.append ((hutf8 _ hmem).append hquote)

/-! ### One reading -/

/-- Assumes: rows of tokens that agree when the first separator is left out. -/
theorem Separated.append_of_tail {closing : Token} {tokens others rest otherRest : List Token}
    (htokens : Separated closing tokens) (hothers : Separated closing others)
    (htail : tokens.tail ++ closing :: rest = others.tail ++ closing :: otherRest) :
    tokens ++ closing :: rest = others ++ closing :: otherRest := by
  rcases htokens with rfl | ⟨first, after, rfl, hfirst⟩ <;>
    rcases hothers with rfl | ⟨otherFirst, otherAfter, rfl, hother⟩
  · exact htail
  · exact absurd (List.cons.inj htail).1.symm hother
  · exact absurd (List.cons.inj htail).1 hfirst
  · exact congrArg (List.cons (.mark .valueSeparator)) htail

mutual

/-- Assumes: values with the same tokens, whatever follows them. -/
theorem Value.tokens_append_inj : ∀ (value other : Value) {rest otherRest : List Token},
    value.tokens ++ rest = other.tokens ++ otherRest → value = other ∧ rest = otherRest
  | .string bytes, .string otherBytes, rest, otherRest, htokens => by
    rw [Value.tokens, Value.tokens] at htokens
    obtain ⟨hbytes, hrest⟩ := List.cons.inj htokens
    rw [Token.string.inj hbytes]
    exact ⟨rfl, hrest⟩
  | .array items, .array others, rest, otherRest, htokens => by
    rw [Value.tokens, Value.tokens, List.cons_append, List.cons_append, List.append_assoc,
      List.append_assoc] at htokens
    obtain ⟨rfl, hrest⟩ := itemTokens_append_inj items others
      ((itemTokens_separated items).append_of_tail (itemTokens_separated others)
        (List.cons.inj htokens).2)
    exact ⟨rfl, hrest⟩
  | .object members, .object others, rest, otherRest, htokens => by
    rw [Value.tokens, Value.tokens, List.cons_append, List.cons_append, List.append_assoc,
      List.append_assoc] at htokens
    obtain ⟨rfl, hrest⟩ := memberTokens_append_inj members others
      ((memberTokens_separated members).append_of_tail (memberTokens_separated others)
        (List.cons.inj htokens).2)
    exact ⟨rfl, hrest⟩
  | .string _, .array _, _, _, htokens
  | .string _, .object _, _, _, htokens
  | .array _, .string _, _, _, htokens
  | .array _, .object _, _, _, htokens
  | .object _, .string _, _, _, htokens
  | .object _, .array _, _, _, htokens => by
    rw [Value.tokens, Value.tokens] at htokens
    exact absurd (List.cons.inj htokens).1 (by simp)

theorem itemTokens_append_inj : ∀ (items others : List Value) {rest otherRest : List Token},
    itemTokens items ++ .mark .endArray :: rest =
      itemTokens others ++ .mark .endArray :: otherRest → items = others ∧ rest = otherRest
  | [], [], _, _, htokens => ⟨rfl, (List.cons.inj htokens).2⟩
  | [], _ :: _, _, _, htokens
  | _ :: _, [], _, _, htokens => by
    rw [itemTokens, itemTokens] at htokens
    exact absurd (List.cons.inj htokens).1 (by decide)
  | item :: items, other :: others, rest, otherRest, htokens => by
    rw [itemTokens, itemTokens, List.cons_append, List.cons_append, List.append_assoc,
      List.append_assoc] at htokens
    obtain ⟨rfl, hitems⟩ := Value.tokens_append_inj item other (List.cons.inj htokens).2
    obtain ⟨rfl, hrest⟩ := itemTokens_append_inj items others hitems
    exact ⟨rfl, hrest⟩

theorem memberTokens_append_inj : ∀ (members others : List (List UInt8 × Value))
    {rest otherRest : List Token},
    memberTokens members ++ .mark .endObject :: rest =
      memberTokens others ++ .mark .endObject :: otherRest → members = others ∧ rest = otherRest
  | [], [], _, _, htokens => ⟨rfl, (List.cons.inj htokens).2⟩
  | [], _ :: _, _, _, htokens
  | _ :: _, [], _, _, htokens => by
    rw [memberTokens, memberTokens] at htokens
    exact absurd (List.cons.inj htokens).1 (by decide)
  | (name, value) :: members, (otherName, other) :: others, rest, otherRest, htokens => by
    rw [memberTokens, memberTokens] at htokens
    simp only [List.cons_append, List.append_assoc, List.cons.injEq, true_and,
      Token.string.injEq] at htokens
    obtain ⟨rfl, hvalue⟩ := htokens
    obtain ⟨rfl, hmembers⟩ := Value.tokens_append_inj value other hvalue
    obtain ⟨rfl, hrest⟩ := memberTokens_append_inj members others hmembers
    exact ⟨rfl, hrest⟩

end

/-- Assumes: two readings of a text. -/
theorem Reads.unique {text : List UInt8} {value other : Value} (hvalue : Reads text value)
    (hother : Reads text other) : value = other := by
  have htokens : value.tokens ++ [] = other.tokens ++ [] :=
    congrArg (· ++ []) (Lexes.unique hvalue hother)
  exact (Value.tokens_append_inj value other htokens).1

/-! ### Objects -/

/-- The text is a JSON text of an object that has these members and no others, in any order. -/
def IsObject (text : List UInt8) (members : List (List UInt8 × Value)) : Prop :=
  IsUtf8 text ∧
    ∃ ordered, ordered.Perm members ∧ ∀ value, Reads text value ↔ value = .object ordered

theorem memberTokens_eq_flatMap (members : List (List UInt8 × Value)) :
    memberTokens members = members.flatMap fun member ↦
      .mark .valueSeparator :: .string member.1 :: .mark .nameSeparator :: member.2.tokens := by
  induction members with
  | nil => rw [memberTokens, List.flatMap_nil]
  | cons member members ih => rw [memberTokens, List.flatMap_cons, ih]; rfl

/-- Two brackets, and a separator in front of each member but the first. -/
theorem length_compact_object (members : List (List UInt8 × Value)) :
    (Value.object members).compact.length =
      ((memberTokens members).flatMap Token.compact).length - 1 + 2 := by
  have htail : ((memberTokens members).tail.flatMap Token.compact).length =
      ((memberTokens members).flatMap Token.compact).length - 1 := by
    rcases memberTokens_separated members with htokens | ⟨first, rest, htokens, -⟩
    · rw [htokens]
      rfl
    · rw [htokens]
      rfl
  rw [Value.compact, Value.tokens, List.flatMap_cons, List.flatMap_append, List.flatMap_singleton,
    List.length_append, List.length_append, htail]
  simp only [Token.compact, List.length_cons, List.length_nil]
  omega

/-- Assumes: the same members in another order. -/
theorem length_compact_object_perm {members ordered : List (List UInt8 × Value)}
    (hperm : ordered.Perm members) :
    (Value.object ordered).compact.length = (Value.object members).compact.length := by
  have htokens : (memberTokens ordered).Perm (memberTokens members) := by
    rw [memberTokens_eq_flatMap, memberTokens_eq_flatMap]
    exact hperm.flatMap_right _
  rw [length_compact_object, length_compact_object, (htokens.flatMap_right _).length_eq]

/-- The shortest text of an object, cut after so many bytes, is a text of the object exactly when no
string needs escapes and nothing was cut off. Assumes: strings in UTF-8. -/
theorem isObject_take_iff {members : List (List UInt8 × Value)}
    (hutf8 : (Value.object members).Holds IsUtf8) (size : ℕ) :
    IsObject ((Value.object members).compact.take size) members ↔
      (Value.object members).Holds NoEscapes ∧ (Value.object members).compact.length ≤ size := by
  constructor
  · rintro ⟨-, ordered, hperm, hreads⟩
    have hlexes : Lexes _ (Value.object ordered).tokens := (hreads (.object ordered)).mpr rfl
    have hshortest := hlexes.length_compact_le
    have hlength := length_compact_object_perm hperm
    rw [Value.compact, Value.compact] at hlength
    rw [hlength, List.length_take, Value.compact] at hshortest
    have hplain : (Value.object ordered).Holds NoEscapes := by
      refine hlexes.plain_of_length_le ?_
      rw [hlength, List.length_take, Value.compact]
      exact Nat.min_le_right _ _
    rw [Value.holds_object] at hplain ⊢
    exact ⟨fun member hmem ↦ hplain member (hperm.mem_iff.mpr hmem),
      Nat.le_trans hshortest (Nat.min_le_left _ _)⟩
  · rintro ⟨hplain, hfits⟩
    rw [List.take_of_length_le hfits]
    refine ⟨isUtf8_compact hutf8, members, List.Perm.refl members, fun value ↦ ⟨?_, ?_⟩⟩
    · exact fun hreads ↦ hreads.unique (reads_compact hplain)
    · rintro rfl
      exact reads_compact hplain

end Json
