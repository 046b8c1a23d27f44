import KoeCore.Library.JsonFlat
import Mathlib.Data.List.Infix
import Mathlib.Data.List.TakeWhile
import Mathlib.Data.UInt

/-!
# Fields of a JSON response

`json_get_str` looks for the text `"key":` in a response, skips spaces and copies what stands
between the next two quotes. For a flat object the result is to be the decoded value of the member
with that name (`FieldExtracted`).

The search knows nothing of the grammar. A key without special characters is found at the first
member whose written name ends in it behind a quote, where the quote may be an escaped one of the
name itself, and whose colon follows directly (`strstr_members`); the value is copied as it is
written, up to its first quote, escaped or not (`FlatMember.copied`). So the result is right exactly
when this is the value that was asked for (`jsonGetStr_extracts_iff`).

A key of more than 252 bytes does not fit the buffer of the pattern. One of 253 bytes is looked up
without the colon, and is never found: behind a string comes no quote (`jsonScan_closed`). Of a
longer key the first 254 bytes are looked up behind a quote. They are found in the first string, of
a name or a value, that has them behind its opening quote or an escaped one, and if nothing but
spaces follows in this string, what is copied is the text between it and the next one
(`jsonScan_strings`).
-/

set_option autoImplicit false
set_option relaxedAutoImplicit false

namespace KoeCore

open Json

/-- `strstr`: the text from the first occurrence of the pattern on. -/
def strstr (text pattern : List UInt8) : Option (List UInt8) :=
  text.tails.find? fun rest ↦ pattern.isPrefixOf rest

/-- What is copied from behind the pattern, or `none` where `json_get_str` returns -1. -/
def scanValue (p : List UInt8) : Option (List UInt8) :=
  match p.dropWhile (· == 0x20) with
  | [] => none
  | byte :: rest => if byte ≠ quote then none else some (rest.takeWhile (· != quote))

/-- What `json_get_str` copies when the buffer is large enough, or `none` where it returns -1. -/
def jsonScan (json pattern : List UInt8) : Option (List UInt8) :=
  match strstr json pattern with
  | none => none
  | some p => scanValue (p.drop pattern.length)

/-- `"%s":`, where the key is. -/
def fieldPattern (key : List UInt8) : List UInt8 :=
  quote :: (key ++ [quote, Mark.nameSeparator.byte])

/-- The return code, and the text in `out` after the call. `pattern` is a buffer of 256 bytes. -/
def jsonGetStr (json key out : List UInt8) (outLen : UInt64) : ℤ × List UInt8 :=
  match jsonScan json ((fieldPattern key).take 255) with
  | none => (-1, out)
  | some copied => (0, copied.take (outLen - 1).toNat)

/-- The text is that of a flat object, and the result is its member with that name. -/
def FieldExtracted (text key : List UInt8) (outLen : UInt64) (result : ℤ × List UInt8) : Prop :=
  ∀ fields, Reads text (.flat fields) →
    match fields.lookup key with
    | some value => result = (0, value.take (outLen - 1).toNat)
    | none => result.1 = -1

/-! ### The search -/

/-- A key without special characters: bytes that stand for themselves in a string, and none of the
structural characters. -/
def IsOrdinary (key : List UInt8) : Prop :=
  ∀ byte ∈ key, IsPlain byte ∧ byte ∉ [0x5b, 0x7b, 0x5d, 0x7d, 0x3a, 0x2c]

instance IsOrdinary.instDecidablePred : DecidablePred IsOrdinary := fun key ↦
  List.decidableBAll _ key

section Search

variable {key pattern front rest : List UInt8}

theorem strstr_at_start (hfront : pattern <+: rest) : strstr rest pattern = some rest := by
  have hfirst : pattern.isPrefixOf rest = true := List.isPrefixOf_iff_prefix.mpr hfront
  cases rest with
  | nil =>
    rw [strstr, List.tails, List.find?_cons_of_pos hfirst]
  | cons byte rest =>
    rw [strstr, List.tails, List.find?_cons_of_pos hfirst]

theorem strstr_cons_of_not {byte : UInt8} (hfront : ¬ pattern <+: byte :: rest) :
    strstr (byte :: rest) pattern = strstr rest pattern := by
  have hfirst : ¬ pattern.isPrefixOf (byte :: rest) = true := by
    rw [List.isPrefixOf_iff_prefix]
    exact hfront
  rw [strstr, List.tails, List.find?_cons_of_neg hfirst, strstr]

/-- Assumes: a text from the first occurrence on. -/
theorem strstr_spec {found : List UInt8} (hfound : strstr rest pattern = some found) :
    pattern <+: found ∧ found <:+ rest :=
  ⟨List.isPrefixOf_iff_prefix.mp (List.find?_some hfound),
    (List.mem_tails _ _).mp (List.mem_of_find?_eq_some hfound)⟩

/-- Assumes: bytes in front that are no quotes. -/
theorem strstr_skip (hfront : quote ∉ front) (tail : List UInt8) :
    strstr (front ++ rest) (quote :: tail) = strstr rest (quote :: tail) := by
  induction front with
  | nil => rfl
  | cons byte front ih =>
    obtain ⟨hbyte, hrest⟩ := not_or.mp (mt List.mem_cons.mpr hfront)
    rw [List.cons_append, strstr_cons_of_not, ih hrest]
    exact fun hstarts ↦ hbyte (List.cons_prefix_cons.mp hstarts).1

/-- Assumes: bytes in front that are no quotes. -/
theorem strstr_append (hfront : quote ∉ front) :
    strstr (front ++ rest) (fieldPattern key) = strstr rest (fieldPattern key) :=
  strstr_skip hfront _

/-- Assumes: bytes in front that are no quotes. -/
theorem suffix_append_iff (hfront : quote ∉ front) :
    quote :: key <:+ front ++ rest ↔ quote :: key <:+ rest := by
  induction front with
  | nil => rfl
  | cons byte front ih =>
    obtain ⟨hbyte, hrest⟩ := not_or.mp (mt List.mem_cons.mpr hfront)
    rw [List.cons_append, List.suffix_cons_iff, ih hrest, or_iff_right]
    exact fun hwhole ↦ hbyte (List.cons.inj hwhole).1

end Search

/-- What the search finds when it comes upon a string that is written so, or behind it. -/
def foundIn (key written after : List UInt8) : Option (List UInt8) :=
  if quote :: key <:+ written ∧ [Mark.nameSeparator.byte] <+: after then
    some (quote :: (key ++ quote :: after))
  else strstr after (fieldPattern key)

/-- Assumes: bytes in front that are no quotes. -/
theorem foundIn_append {key front written after : List UInt8} (hfront : quote ∉ front) :
    foundIn key (front ++ written) after = foundIn key written after := by
  rw [foundIn, foundIn]
  simp only [suffix_append_iff hfront]

/-- Bytes without a quote end in front of the next quote. Assumes: no quote among them. -/
theorem prefix_append_quote_iff {key front rest : List UInt8} (hkey : quote ∉ key)
    (hrest : rest = [] ∨ ∃ more, rest = quote :: more) : key <+: front ++ rest ↔ key <+: front := by
  refine ⟨fun hstarts ↦ ?_, fun hstarts ↦ hstarts.trans (List.prefix_append _ _)⟩
  rcases List.prefix_or_prefix_of_prefix hstarts (List.prefix_append front rest) with
    hfront | ⟨tail, rfl⟩
  · exact hfront
  rw [List.prefix_append_right_inj] at hstarts
  rcases hrest with rfl | ⟨more, rfl⟩
  · rw [List.prefix_nil.mp hstarts, List.append_nil]
  · cases tail with
    | nil => rw [List.append_nil]
    | cons byte tail =>
      rw [(List.cons_prefix_cons.mp hstarts).1] at hkey
      exact absurd (List.mem_append_right _ List.mem_cons_self) hkey

section Key

variable {key : List UInt8} (hkey : IsOrdinary key)

include hkey

theorem IsOrdinary.quote_notMem : quote ∉ key := fun hmem ↦ (hkey quote hmem).1.2.1 rfl

/-- A key in front of whitespace and a structural character lies in the whitespace. Assumes: such a
key. -/
theorem exists_gap_of_prefix {gap : Gap} {mark : Mark} {rest : List UInt8}
    (hstarts : key <+: gap.val ++ mark.byte :: rest) : ∃ left : Gap, gap.val = key ++ left.val := by
  obtain ⟨gap, hgap⟩ := gap
  induction gap generalizing key with
  | nil =>
    cases key with
    | nil => exact ⟨.none, rfl⟩
    | cons byte key =>
      have hbyte : byte = mark.byte := (List.cons_prefix_cons.mp hstarts).1
      have hspecial := (hkey byte List.mem_cons_self).2
      rw [hbyte] at hspecial
      cases mark <;> exact absurd (by decide) hspecial
  | cons blank gap ih =>
    cases key with
    | nil => exact ⟨⟨blank :: gap, hgap⟩, rfl⟩
    | cons byte key =>
      rw [List.all_cons, Bool.and_eq_true] at hgap
      obtain ⟨rfl, hrest⟩ := List.cons_prefix_cons.mp hstarts
      obtain ⟨left, hleft⟩ :=
        ih (fun other hmem ↦ hkey other (List.mem_cons_of_mem _ hmem)) hgap.2 hrest
      exact ⟨left, congrArg (byte :: ·) hleft⟩

/-- What follows a string, whitespace and a structural character, is not what a pattern asks for
behind its first quote. -/
theorem not_prefix_gap (gap : Gap) (mark : Mark) (rest tail : List UInt8) :
    ¬ key ++ quote :: tail <+: gap.val ++ mark.byte :: rest := by
  intro hstarts
  obtain ⟨left, hleft⟩ := exists_gap_of_prefix hkey ((List.prefix_append key _).trans hstarts)
  rw [hleft, List.append_assoc, List.prefix_append_right_inj] at hstarts
  have hquote := quote_notMem_gap left
  rcases hblanks : left.val with _ | ⟨blank, blanks⟩
  · rw [hblanks] at hstarts
    exact mark.byte_ne_quote (List.cons_prefix_cons.mp hstarts).1.symm
  · rw [hblanks] at hstarts hquote
    exact hquote ((List.cons_prefix_cons.mp hstarts).1 ▸ List.mem_cons_self)

/-- A key at the start of a string ends between two of its pieces. Assumes: such a key. -/
theorem exists_textOf_of_prefix {pieces : List Piece} (hstarts : key <+: textOf pieces) :
    ∃ left, textOf pieces = key ++ textOf left := by
  induction pieces generalizing key with
  | nil => exact ⟨[], (List.prefix_nil.mp hstarts).symm ▸ rfl⟩
  | cons piece pieces ih =>
    cases key with
    | nil => exact ⟨piece :: pieces, rfl⟩
    | cons byte key =>
      obtain ⟨⟨-, -, hbackslash⟩, -⟩ := hkey byte List.mem_cons_self
      have hrest : IsOrdinary key := fun other hmem ↦ hkey other (List.mem_cons_of_mem _ hmem)
      rw [textOf_cons] at hstarts ⊢
      cases piece with
      | plain other isPlain =>
        obtain ⟨rfl, hkey⟩ := List.cons_prefix_cons.mp hstarts
        obtain ⟨left, hleft⟩ := ih hrest hkey
        exact ⟨left, congrArg (byte :: ·) hleft⟩
      | escape letter => exact absurd (List.cons_prefix_cons.mp hstarts).1 hbackslash
      | unit hex => exact absurd (List.cons_prefix_cons.mp hstarts).1 hbackslash

/-- A key up to a quote in a string is what is left of the string. -/
theorem append_quote_eq_iff (pieces : List Piece) (tail after : List UInt8) :
    key ++ quote :: tail = textOf pieces ++ quote :: after ↔
      key = textOf pieces ∧ tail = after := by
  constructor
  · intro htext
    have hstarts : key <+: textOf pieces :=
      (prefix_append_quote_iff hkey.quote_notMem (Or.inr ⟨after, rfl⟩)).mp
        (htext ▸ List.prefix_append _ _)
    obtain ⟨left, hleft⟩ := exists_textOf_of_prefix hkey hstarts
    rw [hleft, List.append_assoc, List.append_cancel_left_eq] at htext
    cases left with
    | nil =>
      rw [hleft]
      exact ⟨(List.append_nil key).symm, (List.cons.inj htext).2⟩
    | cons piece left =>
      obtain ⟨first, written, hpiece, hfirst⟩ := piece.text_cons
      rw [textOf_cons, hpiece] at htext
      exact absurd (List.cons.inj htext).1.symm hfirst
  · rintro ⟨rfl, rfl⟩
    rfl

/-- A string ends where the pattern ends its key exactly when it is the key. -/
theorem prefix_textOf_iff (pieces : List Piece) (after : List UInt8) :
    key ++ [quote, Mark.nameSeparator.byte] <+: textOf pieces ++ quote :: after ↔
      key = textOf pieces ∧ [Mark.nameSeparator.byte] <+: after := by
  constructor
  · rintro ⟨rest, hrest⟩
    rw [List.append_assoc] at hrest
    obtain ⟨hname, rfl⟩ := (append_quote_eq_iff hkey pieces _ after).mp hrest
    exact ⟨hname, rest, rfl⟩
  · rintro ⟨rfl, rest, rfl⟩
    exact ⟨rest, List.append_assoc _ _ _⟩

/-- The search runs past the end of a string. -/
theorem strstr_closing (gap : Gap) (mark : Mark) (rest : List UInt8) :
    strstr (quote :: (gap.val ++ mark.byte :: rest)) (fieldPattern key) =
      strstr (gap.val ++ mark.byte :: rest) (fieldPattern key) := by
  refine strstr_cons_of_not fun hstarts ↦ ?_
  exact not_prefix_gap hkey gap mark rest _ (List.cons_prefix_cons.mp hstarts).2

/-- Assumes: what the search finds behind the opening quote. -/
theorem strstr_opening {pieces : List Piece} {after : List UInt8}
    (hinside : strstr (textOf pieces ++ quote :: after) (fieldPattern key) =
      foundIn key (textOf pieces) after) :
    strstr (quote :: (textOf pieces ++ quote :: after)) (fieldPattern key) =
      foundIn key (quote :: textOf pieces) after := by
  by_cases hfound : key = textOf pieces ∧ [Mark.nameSeparator.byte] <+: after
  · obtain ⟨rfl, hcolon⟩ := hfound
    rw [foundIn, if_pos ⟨List.suffix_refl _, hcolon⟩]
    refine strstr_at_start (List.cons_prefix_cons.mpr ⟨rfl, ?_⟩)
    exact (prefix_textOf_iff hkey pieces after).mpr ⟨rfl, hcolon⟩
  · have hstarts : ¬ fieldPattern key <+: quote :: (textOf pieces ++ quote :: after) := by
      intro hstarts
      exact hfound ((prefix_textOf_iff hkey pieces after).mp (List.cons_prefix_cons.mp hstarts).2)
    have hsame : quote :: key <:+ quote :: textOf pieces ∧ [Mark.nameSeparator.byte] <+: after ↔
        quote :: key <:+ textOf pieces ∧ [Mark.nameSeparator.byte] <+: after := by
      refine and_congr_left fun hcolon ↦ ?_
      rw [List.suffix_cons_iff, or_iff_right]
      exact fun hwhole ↦ hfound ⟨(List.cons.inj hwhole).2, hcolon⟩
    rw [strstr_cons_of_not hstarts, hinside, foundIn, foundIn]
    simp only [hsame]

/-- Assumes: a search that runs past the closing quote. -/
theorem strstr_textOf (pieces : List Piece) {after : List UInt8}
    (hclosing : strstr (quote :: after) (fieldPattern key) = strstr after (fieldPattern key)) :
    strstr (textOf pieces ++ quote :: after) (fieldPattern key) =
      foundIn key (textOf pieces) after := by
  induction pieces with
  | nil =>
    rw [foundIn, if_neg fun hsuffix ↦ List.cons_ne_nil _ _ (List.suffix_nil.mp hsuffix.1)]
    exact hclosing
  | cons piece pieces ih =>
    rw [textOf_cons, List.append_assoc]
    by_cases hescaped : piece = .escape .quote
    · -- The escaped quote is a place where the pattern may begin.
      have hbackslash : quote ∉ [backslash] := by decide
      have htext : piece.text = [backslash] ++ [quote] := by rw [hescaped]; rfl
      rw [htext, List.append_assoc, List.append_assoc, strstr_append hbackslash,
        foundIn_append hbackslash]
      exact strstr_opening hkey ih
    · have hpiece : quote ∉ piece.text := piece.quote_notMem_text hescaped
      rw [strstr_append hpiece, ih, foundIn_append hpiece]

end Key

/-! ### Members -/

/-- The search takes the member for one of the name `key`. -/
def isTaken (key : List UInt8) (member : FlatMember) : Bool :=
  (quote :: key).isSuffixOf (quote :: textOf member.name) && member.beforeColon.val.isEmpty

/-- What follows the colon of a member. -/
def afterColon (member : FlatMember) (after : List UInt8) : List UInt8 :=
  member.beforeValue.val ++ quote :: (textOf member.value ++ quote :: (member.back.val ++ after))

theorem prefix_gap_iff (gap : Gap) (mark : Mark) (rest : List UInt8) :
    [Mark.nameSeparator.byte] <+: gap.val ++ mark.byte :: rest ↔
      gap.val = [] ∧ mark = .nameSeparator := by
  obtain ⟨gap, hgap⟩ := gap
  cases gap with
  | nil =>
    simp only [List.nil_append, List.cons_prefix_cons, List.nil_prefix, and_true, true_and]
    exact ⟨fun hbyte ↦ (Mark.byte_inj hbyte).symm, fun hmark ↦ by rw [hmark]⟩
  | cons blank gap =>
    refine iff_of_false (fun hstarts ↦ ?_) (fun hnone ↦ List.cons_ne_nil _ _ hnone.1)
    have hblank : Mark.nameSeparator.byte = blank := (List.cons_prefix_cons.mp hstarts).1
    rw [List.all_cons, ← hblank, Mark.isBlank_byte] at hgap
    exact absurd hgap (by simp)

/-- Behind a member comes whitespace and a structural character other than the colon. -/
theorem memberTexts_ending (object : FlatObject) (members : List FlatMember) :
    ∃ (gap : Gap) (mark : Mark) (rest : List UInt8), mark ≠ .nameSeparator ∧
      memberTexts members ++ object.ending = gap.val ++ mark.byte :: rest := by
  cases members with
  | nil => exact ⟨object.inner, .endObject, object.back.val, by decide, rfl⟩
  | cons member members => exact ⟨.none, .valueSeparator, _, by decide, rfl⟩

section Members

variable {key : List UInt8} (hkey : IsOrdinary key)

include hkey

/-- Assumes: whitespace and a structural character other than the colon behind the member. -/
theorem strstr_member (member : FlatMember) (gap : Gap) {mark : Mark}
    (hmark : mark ≠ .nameSeparator) (rest : List UInt8) :
    strstr (member.text ++ (gap.val ++ mark.byte :: rest)) (fieldPattern key) =
      if isTaken key member then
        some (fieldPattern key ++ afterColon member (gap.val ++ mark.byte :: rest))
      else strstr (gap.val ++ mark.byte :: rest) (fieldPattern key) := by
  have hcolon : quote ∉ member.beforeColon.val ++ [Mark.nameSeparator.byte] := by
    rw [List.mem_append, not_or]
    exact ⟨quote_notMem_gap _, by decide⟩
  have hjoined : (member.back.val ++ gap.val).all isBlank = true := by
    rw [List.all_append, member.back.property, gap.property]
    rfl
  have hafter : member.back.val ++ (gap.val ++ mark.byte :: rest) =
      (⟨member.back.val ++ gap.val, hjoined⟩ : Gap).val ++ mark.byte :: rest :=
    (List.append_assoc _ _ _).symm
  -- The value is followed by something other than a colon, so the search runs past it.
  have hvalue : strstr (afterColon member (gap.val ++ mark.byte :: rest)) (fieldPattern key) =
      strstr (gap.val ++ mark.byte :: rest) (fieldPattern key) := by
    have hstring := strstr_opening hkey (strstr_textOf hkey member.value
      (strstr_closing hkey ⟨member.back.val ++ gap.val, hjoined⟩ mark rest))
    rw [foundIn, if_neg fun hfound ↦ hmark ((prefix_gap_iff _ mark rest).mp hfound.2).2,
      ← hafter] at hstring
    rw [afterColon, strstr_append (quote_notMem_gap _), hstring,
      strstr_append (quote_notMem_gap _)]
  have hname := strstr_opening hkey (strstr_textOf hkey member.name
    (strstr_closing hkey member.beforeColon .nameSeparator
      (afterColon member (gap.val ++ mark.byte :: rest))))
  have htext : member.text ++ (gap.val ++ mark.byte :: rest) =
      member.front.val ++ quote :: (textOf member.name ++ quote :: (member.beforeColon.val ++
        Mark.nameSeparator.byte :: afterColon member (gap.val ++ mark.byte :: rest))) := by
    simp only [FlatMember.text, afterColon, List.append_assoc, List.cons_append]
  rw [htext, strstr_append (quote_notMem_gap _), hname, foundIn]
  simp only [prefix_gap_iff, and_true, isTaken, Bool.and_eq_true, List.isSuffixOf_iff_suffix,
    List.isEmpty_iff]
  split_ifs with htaken
  · rw [htaken.2, fieldPattern]
    simp only [List.nil_append, List.cons_append, List.append_assoc]
  · rw [← List.singleton_append, ← List.append_assoc, strstr_append hcolon, hvalue]

/-- The search ends at the first member that it takes for one of that name. -/
theorem strstr_members (object : FlatObject) (members : List FlatMember) :
    ∃ after, strstr (memberTexts members ++ object.ending) (fieldPattern key) =
      (members.find? (isTaken key)).map fun member ↦
        fieldPattern key ++ afterColon member after := by
  induction members with
  | nil =>
    have hending : quote ∉ object.ending := by
      rw [FlatObject.ending, List.mem_append, List.mem_cons, not_or, not_or]
      exact ⟨quote_notMem_gap _, by decide, quote_notMem_gap _⟩
    have hnone : strstr (object.ending ++ []) (fieldPattern key) = strstr [] (fieldPattern key) :=
      strstr_append hending
    rw [List.append_nil] at hnone
    exact ⟨[], hnone⟩
  | cons member members ih =>
    have hcomma : quote ∉ [Mark.valueSeparator.byte] := by decide
    have htext : memberTexts (member :: members) ++ object.ending =
        [Mark.valueSeparator.byte] ++
          (member.text ++ (memberTexts members ++ object.ending)) := by
      rw [memberTexts, List.flatMap_cons, ← memberTexts, List.append_assoc]
      rfl
    obtain ⟨gap, mark, rest, hmark, hafter⟩ := memberTexts_ending object members
    have hmember := strstr_member hkey member gap hmark rest
    rw [← hafter] at hmember
    rw [htext, strstr_append hcomma, hmember]
    by_cases htaken : isTaken key member = true
    · rw [if_pos htaken, List.find?_cons_of_pos htaken]
      exact ⟨_, rfl⟩
    · rw [if_neg htaken, List.find?_cons_of_neg htaken]
      exact ih

theorem strstr_object (object : FlatObject) :
    ∃ after, strstr object.text (fieldPattern key) =
      (object.members.find? (isTaken key)).map fun member ↦
        fieldPattern key ++ afterColon member after := by
  have hopening : quote ∉ object.front.val ++ [Mark.beginObject.byte] := by
    rw [List.mem_append, not_or]
    exact ⟨quote_notMem_gap _, by decide⟩
  have hmembers : strstr object.text (fieldPattern key) =
      strstr (memberTexts object.members ++ object.ending) (fieldPattern key) := by
    rw [FlatObject.text, ← List.singleton_append, ← List.append_assoc, strstr_append hopening]
    cases object.members with
    | nil => rfl
    | cons member members =>
      have hcomma : quote ∉ [Mark.valueSeparator.byte] := by decide
      exact (strstr_append hcomma).symm
  rw [hmembers]
  exact strstr_members hkey object object.members

end Members

/-! ### Values -/

/-- What is copied from a member, or `none` when whitespace other than spaces is in front of its
value. -/
def copied (member : FlatMember) : Option (List UInt8) :=
  if member.beforeValue.val.all (· == 0x20) then
    some ((textOf member.value).takeWhile (· != quote))
  else none

theorem takeWhile_quote (written rest : List UInt8) :
    (written ++ quote :: rest).takeWhile (· != quote) = written.takeWhile (· != quote) := by
  induction written with
  | nil => rfl
  | cons byte written ih => rw [List.cons_append, List.takeWhile_cons, List.takeWhile_cons, ih]

/-- Assumes: spaces in front of a quote. -/
theorem scanValue_spaces {spaces : List UInt8} (hspaces : spaces.all (· == 0x20) = true)
    (rest : List UInt8) :
    scanValue (spaces ++ quote :: rest) = some (rest.takeWhile (· != quote)) := by
  have hquote : ¬ (quote == 0x20) = true := by decide
  have hdrop : (spaces ++ quote :: rest).dropWhile (· == 0x20) = quote :: rest := by
    rw [List.dropWhile_append_of_pos fun byte hmem ↦ List.all_eq_true.mp hspaces byte hmem,
      List.dropWhile_cons_of_neg (p := (· == 0x20)) hquote]
  rw [scanValue, hdrop]
  exact if_neg (not_not_intro rfl)

/-- Assumes: whitespace in front of a value that is not only spaces. -/
theorem scanValue_blank {gap : Gap} (hspaces : ¬ gap.val.all (· == 0x20) = true)
    (rest : List UInt8) : scanValue (gap.val ++ rest) = none := by
  rw [scanValue, List.dropWhile_append]
  rcases hblank : gap.val.dropWhile (· == 0x20) with _ | ⟨blank, more⟩
  · rw [List.dropWhile_eq_nil_iff] at hblank
    exact absurd (List.all_eq_true.mpr hblank) hspaces
  · have hmem : blank ∈ gap.val := (List.dropWhile_suffix _).subset (hblank ▸ List.mem_cons_self)
    have hne : blank ≠ quote := fun heq ↦ quote_notMem_gap _ (heq ▸ hmem)
    rw [List.isEmpty_cons, if_neg Bool.false_ne_true, List.cons_append]
    exact if_pos hne

/-- Behind whitespace and a byte that is neither a space nor a quote, nothing is copied. Assumes:
such a byte. -/
theorem scanValue_gap (gap : Gap) {byte : UInt8} (hspace : byte ≠ 0x20) (hquote : byte ≠ quote)
    (rest : List UInt8) : scanValue (gap.val ++ byte :: rest) = none := by
  by_cases hspaces : gap.val.all (· == 0x20) = true
  · have hbyte : ¬ (byte == 0x20) = true := by simpa using hspace
    rw [scanValue,
      List.dropWhile_append_of_pos fun other hmem ↦ List.all_eq_true.mp hspaces other hmem,
      List.dropWhile_cons_of_neg (p := (· == 0x20)) hbyte]
    exact if_pos hquote
  · exact scanValue_blank hspaces _

/-- Assumes: a search that ends at the member. -/
theorem jsonScan_of_found {json pattern after : List UInt8} {member : FlatMember}
    (hfound : strstr json pattern = some (pattern ++ afterColon member after)) :
    jsonScan json pattern = copied member := by
  rw [jsonScan, hfound]
  dsimp only
  rw [List.drop_left, afterColon, copied]
  split_ifs with hspaces
  · rw [scanValue_spaces hspaces, takeWhile_quote]
  · exact scanValue_blank hspaces _

/-! ### Keys that the pattern cuts off -/

/-- The pieces behind each escaped quote of a string. -/
def escapedTails : List Piece → List (List Piece)
  | [] => []
  | piece :: pieces =>
    if piece = .escape .quote then pieces :: escapedTails pieces else escapedTails pieces

/-- The pieces behind the opening quote of a string and behind each of its escaped quotes. -/
def quotedTails (pieces : List Piece) : List (List Piece) := pieces :: escapedTails pieces

/-- A quote in a string is an escaped one, or it is the closing one or behind it. Assumes: a text
from a quote on. -/
theorem suffix_textOf {found after : List UInt8} {pieces : List Piece}
    (hfound : quote :: found <:+ textOf pieces ++ quote :: after) :
    (∃ tail ∈ escapedTails pieces, found = textOf tail ++ quote :: after) ∨
      quote :: found <:+ quote :: after := by
  induction pieces with
  | nil => exact Or.inr hfound
  | cons piece pieces ih =>
    rw [textOf_cons, List.append_assoc] at hfound
    rw [escapedTails]
    by_cases hescaped : piece = .escape .quote
    · have hbackslash : quote ∉ [backslash] := by decide
      have htext : piece.text = [backslash] ++ [quote] := by rw [hescaped]; rfl
      rw [htext, List.append_assoc, suffix_append_iff hbackslash, List.singleton_append,
        List.suffix_cons_iff, List.cons.injEq] at hfound
      rw [if_pos hescaped]
      rcases hfound with ⟨-, hhere⟩ | hlater
      · exact Or.inl ⟨pieces, List.mem_cons_self, hhere⟩
      · refine (ih hlater).imp_left ?_
        rintro ⟨tail, htail, hsame⟩
        exact ⟨tail, List.mem_cons_of_mem _ htail, hsame⟩
    · rw [suffix_append_iff (piece.quote_notMem_text hescaped)] at hfound
      rw [if_neg hescaped]
      exact ih hfound

/-- Where the quotes of a text are: they open a string, are escaped in it, or close it. Assumes: a
text from a quote on. -/
theorem suffix_strings {found : List UInt8} {strings : List Written}
    (hfound : quote :: found <:+ strings.flatMap Written.text) :
    ∃ string ∈ strings, ∃ more,
      (∃ tail ∈ quotedTails string.pieces,
          found = textOf tail ++ quote :: (string.behind ++ more)) ∨
        found = string.behind ++ more := by
  induction strings with
  | nil => exact absurd (List.suffix_nil.mp hfound) (List.cons_ne_nil _ _)
  | cons string strings ih =>
    rw [List.flatMap_cons, Written.text, List.cons_append, List.append_assoc, List.cons_append,
      List.suffix_cons_iff, List.cons.injEq] at hfound
    rcases hfound with ⟨-, hopening⟩ | hfound
    · exact ⟨string, List.mem_cons_self, _, Or.inl ⟨_, List.mem_cons_self, hopening⟩⟩
    rcases suffix_textOf hfound with ⟨tail, htail, hescaped⟩ | hfound
    · exact ⟨string, List.mem_cons_self, _, Or.inl ⟨tail, List.mem_cons_of_mem _ htail, hescaped⟩⟩
    rw [List.suffix_cons_iff, List.cons.injEq] at hfound
    rcases hfound with ⟨-, hclosing⟩ | hfound
    · exact ⟨string, List.mem_cons_self, _, Or.inr hclosing⟩
    · rw [suffix_append_iff string.quote_notMem_behind] at hfound
      obtain ⟨other, hother, hplace⟩ := ih hfound
      exact ⟨other, List.mem_cons_of_mem _ hother, hplace⟩

/-- A string of which only a part was found goes on with a quote only where it ends. -/
theorem scanValue_textOf (pieces : List Piece) (after : List UInt8) :
    scanValue (textOf pieces ++ quote :: after) =
      if (textOf pieces).all (· == 0x20) then some (after.takeWhile (· != quote)) else none := by
  split_ifs with hspaces
  · exact scanValue_spaces hspaces after
  · induction pieces with
    | nil => exact absurd rfl hspaces
    | cons piece pieces ih =>
      obtain ⟨first, written, hpiece, hfirst⟩ := piece.text_cons
      rw [textOf_cons] at hspaces ⊢
      by_cases hspace : piece.text = [0x20]
      · rw [hspace, List.singleton_append, List.all_cons, beq_self_eq_true, Bool.true_and]
          at hspaces
        have hskip := ih hspaces
        rw [scanValue] at hskip ⊢
        rw [hspace, List.singleton_append, List.cons_append,
          List.dropWhile_cons_of_pos (p := (· == 0x20)) (beq_self_eq_true _)]
        exact hskip
      · have hne : first ≠ 0x20 := by
          intro heq
          cases piece with
          | plain byte isPlain =>
            obtain ⟨rfl, -⟩ := List.cons.inj hpiece
            exact hspace (by rw [Piece.text, heq])
          | escape letter => exact absurd ((List.cons.inj hpiece).1.trans heq) (by decide)
          | unit hex => exact absurd ((List.cons.inj hpiece).1.trans heq) (by decide)
        rw [hpiece, List.cons_append, List.cons_append]
        exact scanValue_gap .none hne hfirst _

/-- What is found behind the first quote of a string that has the bytes behind it, or behind its
closing quote: `some` of what is then copied. -/
def cutHit (front : List UInt8) (string : Written) : Option (Option (List UInt8)) :=
  match (quotedTails string.pieces).find? fun tail ↦ front.isPrefixOf (textOf tail) with
  | some tail =>
    some (if ((textOf tail).drop front.length).all (· == 0x20) then some string.behind else none)
  | none => if front.isPrefixOf string.behind then some none else none

/-- Where the search for the key behind a quote stops, with the given pieces behind the quotes of a
string. -/
def stopAmong (key : List UInt8) (tails : List (List Piece)) (after : List UInt8) :
    Option (List UInt8) :=
  match tails.find? fun tail ↦ key.isPrefixOf (textOf tail) with
  | some tail => some (quote :: (textOf tail ++ quote :: after))
  | none => strstr (quote :: after) (quote :: key)

section Cut

variable {key : List UInt8} (hkey : IsOrdinary key)

include hkey

/-- Without its colon the pattern is never followed by a quote. -/
theorem jsonScan_closed (object : FlatObject) :
    jsonScan object.text (quote :: (key ++ [quote])) = none := by
  rw [jsonScan]
  rcases hfound : strstr object.text (quote :: (key ++ [quote])) with _ | found
  · rfl
  obtain ⟨⟨rest, rfl⟩, hsuffix⟩ := strstr_spec hfound
  obtain ⟨lead, hlead, htext⟩ := object.exists_text_eq
  have hafter : quote :: (key ++ [quote]) ++ rest = quote :: (key ++ quote :: rest) := by simp
  rw [hafter, htext, suffix_append_iff hlead] at hsuffix
  have hbehind : ∃ string : Written, ∃ more, rest = string.behind ++ more := by
    obtain ⟨string, -, more, ⟨tail, -, hinside⟩ | hclosing⟩ := suffix_strings hsuffix
    · exact ⟨string, more, ((append_quote_eq_iff hkey tail rest _).mp hinside).2⟩
    · rw [Written.behind, List.append_assoc] at hclosing
      exact absurd ⟨[], by rw [List.append_nil]; exact hclosing⟩
        (not_prefix_gap hkey string.gap string.mark (string.next.val ++ more) rest)
  obtain ⟨string, more, rfl⟩ := hbehind
  dsimp only
  rw [List.drop_left, Written.behind, List.append_assoc]
  exact scanValue_gap string.gap (by cases string.mark <;> decide) string.mark.byte_ne_quote _

/-- Assumes: the search from behind the opening quote. -/
theorem strstr_quoted {pieces : List Piece} {after : List UInt8}
    (hinside : strstr (textOf pieces ++ quote :: after) (quote :: key) =
      stopAmong key (escapedTails pieces) after) :
    strstr (quote :: (textOf pieces ++ quote :: after)) (quote :: key) =
      stopAmong key (quotedTails pieces) after := by
  have hhere : quote :: key <+: quote :: (textOf pieces ++ quote :: after) ↔
      key.isPrefixOf (textOf pieces) = true := by
    rw [List.cons_prefix_cons, and_iff_right rfl, List.isPrefixOf_iff_prefix]
    exact prefix_append_quote_iff hkey.quote_notMem (Or.inr ⟨after, rfl⟩)
  rw [stopAmong, quotedTails]
  by_cases hfound : key.isPrefixOf (textOf pieces) = true
  · rw [strstr_at_start (hhere.mpr hfound),
      List.find?_cons_of_pos (p := fun tail ↦ key.isPrefixOf (textOf tail)) hfound]
  · rw [strstr_cons_of_not (fun hstarts ↦ hfound (hhere.mp hstarts)), hinside, stopAmong,
      List.find?_cons_of_neg (p := fun tail ↦ key.isPrefixOf (textOf tail)) hfound]

theorem strstr_escaped (pieces : List Piece) (after : List UInt8) :
    strstr (textOf pieces ++ quote :: after) (quote :: key) =
      stopAmong key (escapedTails pieces) after := by
  induction pieces with
  | nil => rfl
  | cons piece pieces ih =>
    rw [textOf_cons, List.append_assoc, escapedTails]
    by_cases hescaped : piece = .escape .quote
    · have hbackslash : quote ∉ [backslash] := by decide
      have htext : piece.text = [backslash] ++ [quote] := by rw [hescaped]; rfl
      rw [if_pos hescaped, htext, List.append_assoc, strstr_skip hbackslash]
      exact strstr_quoted hkey ih
    · rw [if_neg hescaped, strstr_skip (piece.quote_notMem_text hescaped), ih]

/-- What is copied when the search stops in a string. Assumes: pieces with the key in front. -/
theorem scanValue_inside {tail : List Piece} (hfront : key <+: textOf tail) (after : List UInt8) :
    scanValue ((quote :: (textOf tail ++ quote :: after)).drop (quote :: key).length) =
      if ((textOf tail).drop key.length).all (· == 0x20) then some (after.takeWhile (· != quote))
      else none := by
  obtain ⟨left, hleft⟩ := exists_textOf_of_prefix hkey hfront
  rw [List.length_cons, List.drop_succ_cons, hleft, List.append_assoc, List.drop_left,
    List.drop_left, scanValue_textOf]

/-- Nothing is copied when it stops at the closing quote. Assumes: whitespace as key. -/
theorem scanValue_behind {string : Written} (hbehind : key <+: string.behind)
    (more : List UInt8) :
    scanValue ((quote :: (string.behind ++ more)).drop (quote :: key).length) = none := by
  obtain ⟨left, hleft⟩ := exists_gap_of_prefix hkey hbehind
  rw [List.length_cons, List.drop_succ_cons, Written.behind, hleft, List.append_assoc,
    List.append_assoc, List.drop_left]
  exact scanValue_gap left (by cases string.mark <;> decide) string.mark.byte_ne_quote _

/-- The search for the start of a key, string by string. -/
theorem jsonScan_strings (strings : List Written) :
    jsonScan (strings.flatMap Written.text) (quote :: key) =
      (strings.findSome? (cutHit key)).join := by
  induction strings with
  | nil => rfl
  | cons string strings ih =>
    let more := strings.flatMap Written.text
    have hmore : more = [] ∨ ∃ rest, more = quote :: rest := by
      rcases strings with _ | ⟨next, strings⟩
      · exact Or.inl rfl
      · exact Or.inr ⟨_, rfl⟩
    have hcopied : (string.behind ++ more).takeWhile (· != quote) = string.behind := by
      have hall : ∀ byte ∈ string.behind, (byte != quote) = true := fun byte hmem ↦
        bne_iff_ne.mpr fun heq ↦ string.quote_notMem_behind (heq ▸ hmem)
      rw [List.takeWhile_append_of_pos hall]
      rcases hmore with hnil | ⟨rest, hrest⟩
      · rw [hnil, List.takeWhile_nil, List.append_nil]
      · rw [hrest, List.takeWhile_cons_of_neg (by simp), List.append_nil]
    have htext : (string :: strings).flatMap Written.text =
        quote :: (textOf string.pieces ++ quote :: (string.behind ++ more)) := by
      rw [List.flatMap_cons, Written.text, List.cons_append, List.append_assoc, List.cons_append]
    rw [List.findSome?_cons, cutHit, jsonScan, htext,
      strstr_quoted hkey (strstr_escaped hkey string.pieces _), stopAmong]
    rcases htail : (quotedTails string.pieces).find?
        fun tail ↦ key.isPrefixOf (textOf tail) with _ | tail
    · dsimp only
      by_cases hbehind : key <+: string.behind
      · have hstarts : quote :: key <+: quote :: (string.behind ++ more) :=
          List.cons_prefix_cons.mpr ⟨rfl, hbehind.trans (List.prefix_append _ _)⟩
        rw [if_pos (List.isPrefixOf_iff_prefix.mpr hbehind), strstr_at_start hstarts]
        exact scanValue_behind hkey hbehind more
      · have hnot : ¬ quote :: key <+: quote :: (string.behind ++ more) := by
          rw [List.cons_prefix_cons, and_iff_right rfl,
            prefix_append_quote_iff hkey.quote_notMem hmore]
          exact hbehind
        rw [if_neg fun hfront ↦ hbehind (List.isPrefixOf_iff_prefix.mp hfront),
          strstr_cons_of_not hnot, strstr_skip string.quote_notMem_behind]
        exact ih
    · dsimp only
      have hfront := List.find?_some htail
      rw [scanValue_inside hkey (List.isPrefixOf_iff_prefix.mp hfront), hcopied]
      rfl

end Cut

/-- What the search copies for the key. A key of 253 bytes is looked up without the colon behind it
and never found, and of a longer one the first 254 bytes are looked up. -/
def scannedField (object : FlatObject) (key : List UInt8) : Option (List UInt8) :=
  if key.length ≤ 252 then (object.members.find? (isTaken key)).bind copied
  else if key.length = 253 then none
  else (object.strings.findSome? (cutHit (key.take 254))).join

/-- Assumes: a key without special characters. -/
theorem jsonScan_object (object : FlatObject) {key : List UInt8} (hkey : IsOrdinary key) :
    jsonScan object.text ((fieldPattern key).take 255) = scannedField object key := by
  rw [scannedField]
  split_ifs with hshort hclosed
  · have hpattern : (fieldPattern key).take 255 = fieldPattern key := by
      refine List.take_of_length_le ?_
      rw [fieldPattern, List.length_cons, List.length_append]
      simp only [List.length_cons, List.length_nil]
      omega
    obtain ⟨after, hfound⟩ := strstr_object hkey object
    rw [hpattern]
    rcases hmember : object.members.find? (isTaken key) with _ | member
    · rw [hmember, Option.map_none] at hfound
      rw [jsonScan, hfound]
      rfl
    · rw [hmember, Option.map_some] at hfound
      rw [jsonScan_of_found hfound]
      rfl
  · have hpattern : (fieldPattern key).take 255 = quote :: (key ++ [quote]) := by
      rw [fieldPattern, List.take_succ_cons, List.take_append, List.take_of_length_le (by omega),
        hclosed]
      rfl
    rw [hpattern]
    exact jsonScan_closed hkey object
  · have hpattern : (fieldPattern key).take 255 = quote :: key.take 254 := by
      rw [fieldPattern, List.take_succ_cons, List.take_append_of_le_length (by omega)]
    have hcut : IsOrdinary (key.take 254) := fun byte hmem ↦ hkey byte (List.mem_of_mem_take hmem)
    obtain ⟨lead, hlead, htext⟩ := object.exists_text_eq
    have hskip : jsonScan object.text (quote :: key.take 254) =
        jsonScan (object.strings.flatMap Written.text) (quote :: key.take 254) := by
      rw [jsonScan, jsonScan, htext, strstr_skip hlead]
    rw [hpattern, hskip]
    exact jsonScan_strings hcut object.strings

/-! ### Extraction -/

/-- A flat object is read in one way. -/
theorem fieldExtracted_iff (object : FlatObject) (key : List UInt8) (outLen : UInt64)
    (result : ℤ × List UInt8) :
    FieldExtracted object.text key outLen result ↔
      match object.fields.lookup key with
      | some value => result = (0, value.take (outLen - 1).toNat)
      | none => result.1 = -1 := by
  constructor
  · intro hextracted
    exact hextracted object.fields object.reads
  · intro hresult fields hreads
    obtain rfl := Value.flat_inj (hreads.unique object.reads)
    exact hresult

/-- The result is right exactly when what the search copies is the value that was asked for, as far
as the buffer goes, or when there is neither. Assumes: a key without special characters. -/
theorem jsonGetStr_extracts_iff (object : FlatObject) {key : List UInt8} (hkey : IsOrdinary key)
    (out : List UInt8) (outLen : UInt64) :
    FieldExtracted object.text key outLen (jsonGetStr object.text key out outLen) ↔
      (scannedField object key).map (·.take (outLen - 1).toNat) =
        (object.fields.lookup key).map (·.take (outLen - 1).toNat) := by
  have hfails : ¬ (0 : ℤ) = -1 := by decide
  rw [fieldExtracted_iff, jsonGetStr, jsonScan_object object hkey]
  rcases scannedField object key with _ | copied <;>
    rcases object.fields.lookup key with _ | value
  · simp only [Option.map_none]
  · simp only [Option.map_none, Option.map_some, reduceCtorEq, iff_false, Prod.mk.injEq, not_and]
    exact False.elim
  · simp only [Option.map_none, Option.map_some, reduceCtorEq, hfails]
  · simp only [Option.map_some, Prod.mk.injEq, true_and, Option.some.injEq]

/-- An object of one member, with whitespace only in front of the colon. -/
def oneField (name value : List Piece) (beforeColon : Gap) : FlatObject where
  front := .none
  members := [⟨.none, name, beforeColon, .none, value, .none⟩]
  inner := .none
  back := .none

/-- The string `k`. -/
def nameK : List Piece := [.plain 0x6b (by decide)]

/-- The string `v`. -/
def valueV : List Piece := [.plain 0x76 (by decide)]

/-- The field `k` of an object without whitespace or escapes. -/
theorem compactField_extracted :
    FieldExtracted (oneField nameK valueV .none).text [0x6b] 256
      (jsonGetStr (oneField nameK valueV .none).text [0x6b] [] 256) :=
  (jsonGetStr_extracts_iff (oneField nameK valueV .none) (by decide) [] 256).mpr (by decide)

/-- A field with a space in front of its colon is not found, a value with an escape is copied as it
is written and only up to its escaped quote, and a name that ends in an escaped quote and `k` is
taken for `k`. -/
theorem jsonGetStr_misreads :
    let spaced := oneField nameK valueV ⟨[0x20], rfl⟩
    let escaped := oneField nameK (nameK ++ [.escape .quote]) .none
    let longer := oneField (.escape .quote :: nameK) valueV .none
    (jsonGetStr spaced.text [0x6b] [] 256 = (-1, []) ∧
        ¬ FieldExtracted spaced.text [0x6b] 256 (-1, [])) ∧
      (jsonGetStr escaped.text [0x6b] [] 256 = (0, [0x6b, backslash]) ∧
        ¬ FieldExtracted escaped.text [0x6b] 256 (0, [0x6b, backslash])) ∧
      (jsonGetStr longer.text [0x6b] [] 256 = (0, [0x76]) ∧
        ¬ FieldExtracted longer.text [0x6b] 256 (0, [0x76])) := by
  intro spaced escaped longer
  refine ⟨⟨by decide, ?_⟩, ⟨by decide, ?_⟩, ⟨by decide, ?_⟩⟩
  · intro hextracted
    have hresult : ((-1 : ℤ), ([] : List UInt8)) = (0, [0x76]) :=
      (fieldExtracted_iff spaced _ _ _).mp hextracted
    exact absurd hresult (by decide)
  · intro hextracted
    have hresult : ((0 : ℤ), [0x6b, backslash]) = (0, [0x6b, quote]) :=
      (fieldExtracted_iff escaped _ _ _).mp hextracted
    exact absurd hresult (by decide)
  · intro hextracted
    have hresult : (0 : ℤ) = -1 := (fieldExtracted_iff longer _ _ _).mp hextracted
    exact absurd hresult (by decide)

end KoeCore
