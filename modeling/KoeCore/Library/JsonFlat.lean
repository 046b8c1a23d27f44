import KoeCore.Library.Json
import Mathlib.Data.List.Basic

/-!
# Flat JSON objects as they are written

A flat object is an object whose values are all strings. `FlatObject` is such an object with its
whitespace and with its strings as the pieces they are written in. Its text (`FlatObject.text`)
reads as the object with the decoded names and values (`FlatObject.reads`). `FlatObject.strings` is
the object as the row of its strings, names and values alike, each with what stands between it and
the next one (`FlatObject.exists_text_eq`).
-/

set_option autoImplicit false
set_option relaxedAutoImplicit false

namespace Json

/-- A member of a flat object, with the whitespace around its tokens. -/
structure FlatMember where
  front : Gap
  name : List Piece
  beforeColon : Gap
  beforeValue : Gap
  value : List Piece
  back : Gap

def FlatMember.text (member : FlatMember) : List UInt8 :=
  member.front.val ++ quote :: (textOf member.name ++ quote :: (member.beforeColon.val ++
    Mark.nameSeparator.byte :: (member.beforeValue.val ++ quote :: (textOf member.value ++
      quote :: member.back.val))))

/-- A flat object; `inner` is the whitespace in front of the closing brace. -/
structure FlatObject where
  front : Gap
  members : List FlatMember
  inner : Gap
  back : Gap

/-- The members, each with a separator in front. -/
def memberTexts (members : List FlatMember) : List UInt8 :=
  members.flatMap fun member ↦ Mark.valueSeparator.byte :: member.text

/-- What follows the members. -/
def FlatObject.ending (object : FlatObject) : List UInt8 :=
  object.inner.val ++ Mark.endObject.byte :: object.back.val

def FlatObject.text (object : FlatObject) : List UInt8 :=
  object.front.val ++ Mark.beginObject.byte :: ((memberTexts object.members).tail ++ object.ending)

/-- The decoded names and values. -/
def FlatObject.fields (object : FlatObject) : List (List UInt8 × List UInt8) :=
  object.members.map fun member ↦ (decode member.name, decode member.value)

/-- An object whose values are strings. -/
def Value.flat (fields : List (List UInt8 × List UInt8)) : Value :=
  .object (fields.map fun field ↦ (field.1, .string field.2))

theorem Value.flat_inj {fields others : List (List UInt8 × List UInt8)}
    (hflat : Value.flat fields = Value.flat others) : fields = others := by
  refine List.map_injective_iff.mpr ?_ (Value.object.inj hflat)
  intro field other hfield
  obtain ⟨hname, hvalue⟩ := Prod.mk.inj hfield
  exact Prod.ext hname (Value.string.inj hvalue)

/-- Whitespace in front of a row of tokens. -/
theorem Lexes.blank (gap : Gap) {text : List UInt8} {tokens : List Token}
    (hlexes : Lexes text tokens) : Lexes (gap.val ++ text) tokens := by
  have hjoin : ∀ other : Gap, (gap.val ++ other.val).all isBlank = true := fun other ↦ by
    rw [List.all_append, gap.property, other.property]
    rfl
  cases hlexes with
  | done other => exact .done ⟨gap.val ++ other.val, hjoin other⟩
  | mark other char rest =>
    rw [← List.append_assoc]
    exact .mark ⟨gap.val ++ other.val, hjoin other⟩ char rest
  | string other pieces rest =>
    rw [← List.append_assoc]
    exact .string ⟨gap.val ++ other.val, hjoin other⟩ pieces rest

/-- Assumes: a row of tokens behind the member. -/
theorem FlatMember.lexes (member : FlatMember) {text : List UInt8} {tokens : List Token}
    (hlexes : Lexes text tokens) :
    Lexes (member.text ++ text)
      (.string (decode member.name) :: .mark .nameSeparator :: .string (decode member.value) ::
        tokens) := by
  have hall := Lexes.string member.front member.name (Lexes.mark member.beforeColon .nameSeparator
    (Lexes.string member.beforeValue member.value (hlexes.blank member.back)))
  rw [FlatMember.text]
  simp only [List.append_assoc, List.cons_append]
  exact hall

/-- Assumes: a row of tokens behind the members. -/
theorem memberTexts_lexes (members : List FlatMember) {text : List UInt8} {tokens : List Token}
    (hlexes : Lexes text tokens) :
    Lexes (memberTexts members ++ text)
      (memberTokens (members.map fun member ↦
        (decode member.name, .string (decode member.value))) ++ tokens) := by
  induction members with
  | nil => exact hlexes
  | cons member members ih =>
    have hmember := Lexes.mark .none .valueSeparator (member.lexes ih)
    rw [memberTexts, List.flatMap_cons, List.append_assoc, ← memberTexts, List.map_cons,
      memberTokens, Value.tokens]
    exact hmember

/-- The text of a flat object is a JSON text of it. -/
theorem FlatObject.reads (object : FlatObject) : Reads object.text (.flat object.fields) := by
  have hending : Lexes object.ending [.mark .endObject] :=
    .mark object.inner .endObject (.done object.back)
  have hmembers : Lexes ((memberTexts object.members).tail ++ object.ending)
      ((memberTokens (object.members.map fun member ↦
        (decode member.name, .string (decode member.value)))).tail ++ [.mark .endObject]) := by
    rcases object.members with _ | ⟨member, members⟩
    · exact hending
    · have hfirst := member.lexes (memberTexts_lexes members hending)
      rw [memberTexts, List.flatMap_cons, List.cons_append, List.tail_cons, List.append_assoc,
        ← memberTexts, List.map_cons, memberTokens, List.tail_cons, Value.tokens]
      exact hfirst
  rw [Reads, Value.flat, Value.tokens, FlatObject.fields, List.map_map]
  exact .mark object.front .beginObject hmembers

/-! ### The strings of an object -/

/-- A string as it is written, with what stands between it and the next string or the end of the
text: whitespace, a structural character and whitespace. -/
structure Written where
  pieces : List Piece
  gap : Gap
  mark : Mark
  next : Gap

namespace Written

def behind (string : Written) : List UInt8 :=
  string.gap.val ++ string.mark.byte :: string.next.val

def text (string : Written) : List UInt8 :=
  quote :: (textOf string.pieces ++ quote :: string.behind)

end Written

theorem quote_notMem_gap (gap : Gap) : quote ∉ gap.val := by
  intro hmem
  exact absurd (List.all_eq_true.mp gap.property quote hmem) (by decide)

theorem Written.quote_notMem_behind (string : Written) : quote ∉ string.behind := by
  rw [behind, List.mem_append, List.mem_cons, not_or, not_or]
  exact ⟨quote_notMem_gap _, string.mark.byte_ne_quote.symm, quote_notMem_gap _⟩

/-- Whitespace behind whitespace. -/
def Gap.append (gap other : Gap) : Gap :=
  ⟨gap.val ++ other.val, by rw [List.all_append, gap.property, other.property]; rfl⟩

/-- The names and values of members of the object, the last of them at its end. -/
def FlatObject.stringsOf (object : FlatObject) : List FlatMember → List Written
  | [] => []
  | member :: members =>
    ⟨member.name, member.beforeColon, .nameSeparator, member.beforeValue⟩ ::
      (match members with
        | [] => ⟨member.value, member.back.append object.inner, .endObject, object.back⟩
        | next :: _ => ⟨member.value, member.back, .valueSeparator, next.front⟩) ::
      object.stringsOf members

/-- The names and values in the order in which they are written. -/
def FlatObject.strings (object : FlatObject) : List Written := object.stringsOf object.members

theorem FlatObject.text_stringsOf (object : FlatObject) (members : List FlatMember) :
    ∀ member : FlatMember, member.text ++ (memberTexts members ++ object.ending) =
      member.front.val ++ (object.stringsOf (member :: members)).flatMap Written.text := by
  induction members with
  | nil =>
    intro member
    simp [stringsOf, FlatMember.text, memberTexts, ending, Written.text, Written.behind, Gap.append]
  | cons next members ih =>
    intro member
    have hnext : memberTexts (next :: members) ++ object.ending =
        Mark.valueSeparator.byte :: (next.front.val ++
          (object.stringsOf (next :: members)).flatMap Written.text) := by
      rw [← ih next, memberTexts, List.flatMap_cons, ← memberTexts]
      simp only [List.cons_append, List.append_assoc]
    rw [hnext, stringsOf, List.flatMap_cons, List.flatMap_cons]
    simp only [FlatMember.text, Written.text, Written.behind, List.append_assoc, List.cons_append]

/-- No string begins in front of the first one. -/
theorem FlatObject.exists_text_eq (object : FlatObject) :
    ∃ lead, quote ∉ lead ∧ object.text = lead ++ object.strings.flatMap Written.text := by
  rw [strings, text]
  rcases object.members with _ | ⟨member, members⟩
  · refine ⟨object.front.val ++ Mark.beginObject.byte :: object.ending, ?_, ?_⟩
    · simp only [ending, List.mem_append, List.mem_cons, not_or]
      exact ⟨quote_notMem_gap _, by decide, quote_notMem_gap _, by decide, quote_notMem_gap _⟩
    · simp [memberTexts, stringsOf]
  · refine ⟨object.front.val ++ Mark.beginObject.byte :: member.front.val, ?_, ?_⟩
    · simp only [List.mem_append, List.mem_cons, not_or]
      exact ⟨quote_notMem_gap _, by decide, quote_notMem_gap _⟩
    · rw [memberTexts, List.flatMap_cons, List.cons_append, List.tail_cons, List.append_assoc,
        ← memberTexts, object.text_stringsOf members member, List.append_assoc, List.cons_append]

end Json
