import KoeCore.Identity.File
import KoeCore.Library.Wire
import KoeCore.Matrix.Rooms

/-!
# HTTP requests to a Matrix homeserver

`matrix_http` puts the homeserver and the access token of the context into a request and runs it
with libcurl, which hands the response to `write_cb` in pieces; `write_cb` appends each piece to a
buffer that it enlarges when needed, and keeps a zero byte behind the text. The server and the
network are a parameter (`HttpEnv`), as is what each call of `realloc` answers.

`writeCb_accumulates` is the invariant of the buffer over all pieces of a response: nothing is
written outside of it, and it holds the pieces one after the other. So a response without zero bytes
reaches the caller as it was sent, in whatever pieces it arrived (`exists_answer_of_matrixHttp`).
-/

set_option autoImplicit false
set_option relaxedAutoImplicit false

namespace KoeCore

open ByteWire

/-! ### The response -/

/-- `koe_http_response_t`. -/
structure HttpResponse where
  buf : List UInt8
  len : ℕ
  cap : ℕ
deriving DecidableEq

/-- `{ calloc(1, cap), 0, cap }`. -/
def HttpResponse.zeroed (cap : ℕ) : HttpResponse := ⟨List.replicate cap 0, 0, cap⟩

/-- The text in the buffer, for a reader that stops at a zero byte. -/
def HttpResponse.text (resp : HttpResponse) : List UInt8 := resp.buf.takeWhile (· ≠ 0)

/-- What one call of `realloc` answers when it is asked for that many more bytes: what they hold, or
`none`. -/
abbrev Realloc := (more : ℕ) → Option (Block more)

/-- The number of bytes taken and the response after the call. A write that left the buffer would
make it longer here. -/
def writeCb (realloc : Realloc) (resp : HttpResponse) (piece : List UInt8) : ℕ × HttpResponse :=
  let enlarged : Option HttpResponse :=
    if resp.cap < resp.len + piece.length + 1 then
      (realloc (piece.length + 1024)).map fun fresh ↦
        { resp with buf := resp.buf ++ fresh.toList, cap := resp.cap + piece.length + 1024 }
    else some resp
  match enlarged with
  | none => (0, resp)
  | some resp =>
    let copied := (Cursor.mk resp.buf resp.len).put piece
    (piece.length, ⟨(copied.put [0]).buf, copied.off, resp.cap⟩)

/-- libcurl passes the pieces on until one is not taken in full; each call of `write_cb` has an
answer of `realloc` of its own. -/
def receivePieces : (ℕ → Realloc) → HttpResponse → List (List UInt8) → Bool × HttpResponse
  | _, resp, [] => (true, resp)
  | realloc, resp, piece :: pieces =>
    let written := writeCb (realloc 0) resp piece
    if written.1 ≠ piece.length then (false, written.2)
    else receivePieces (fun call ↦ realloc (call + 1)) written.2 pieces

/-- The call for the piece behind a front of the pieces asks `realloc` for more room and gets
none. -/
def RunsOut (realloc : ℕ → Realloc) (resp : HttpResponse) (pieces front : List (List UInt8)) :
    Prop :=
  ∃ piece, pieces[front.length]? = some piece ∧ resp.cap < resp.len + piece.length + 1 ∧
    realloc front.length (piece.length + 1024) = none

/-- The buffer has its capacity, and begins with the text and a zero byte. -/
structure HttpResponse.Holds (resp : HttpResponse) (text : List UInt8) : Prop where
  length_buf : resp.buf.length = resp.cap
  len_eq : resp.len = text.length
  front : text ++ [0] <+: resp.buf

section Response

variable {resp : HttpResponse} {text piece : List UInt8}

/-- Assumes: room for at least the zero byte. -/
theorem HttpResponse.holds_zeroed {cap : ℕ} (hcap : 0 < cap) :
    (HttpResponse.zeroed cap).Holds [] := by
  refine ⟨List.length_replicate, rfl, ?_⟩
  obtain ⟨rest, rfl⟩ := Nat.exists_eq_add_of_lt hcap
  rw [HttpResponse.zeroed, Nat.zero_add, List.replicate_succ, List.nil_append]
  exact ⟨_, rfl⟩

/-- Assumes: a buffer with a text. -/
theorem HttpResponse.Holds.enlarge (hholds : resp.Holds text) (fresh : List UInt8) :
    HttpResponse.Holds ⟨resp.buf ++ fresh, resp.len, resp.cap + fresh.length⟩ text := by
  refine ⟨?_, hholds.len_eq, hholds.front.trans (List.prefix_append _ _)⟩
  rw [List.length_append, hholds.length_buf]

/-- A piece that fits. Assumes: a buffer with a text, and room for the piece and a zero byte. -/
theorem HttpResponse.Holds.put (hholds : resp.Holds text)
    (hroom : resp.len + piece.length + 1 ≤ resp.cap) :
    let copied := (Cursor.mk resp.buf resp.len).put piece
    HttpResponse.Holds ⟨(copied.put [0]).buf, copied.off, resp.cap⟩ (text ++ piece) := by
  intro copied
  obtain ⟨rest, hbuf⟩ := hholds.front
  have hlength := hholds.length_buf
  have hoff : resp.len ≤ resp.buf.length := by omega
  have htake : resp.buf.take resp.len = text := by
    rw [← hbuf, hholds.len_eq, List.append_assoc, List.take_left]
  have hput : (copied.put [0]).buf =
      text ++ piece ++ [0] ++ resp.buf.drop (resp.len + piece.length + 1) := by
    rw [Cursor.put_put hoff]
    simp only [Cursor.put, htake, List.length_append, List.length_singleton, List.append_assoc,
      Nat.add_assoc]
  refine ⟨?_, ?_, ?_⟩
  · rw [hput]
    simp only [List.length_append, List.length_drop, List.length_singleton]
    have hlen := hholds.len_eq
    omega
  · rw [List.length_append, ← hholds.len_eq]
    rfl
  · rw [hput]
    exact List.prefix_append _ _

/-- One call: the piece is appended, or memory ran out and nothing happened. Assumes: a buffer with
a text. -/
theorem HttpResponse.Holds.writeCb (hholds : resp.Holds text) (realloc : Realloc)
    (piece : List UInt8) :
    ((writeCb realloc resp piece).1 = piece.length ∧
        (writeCb realloc resp piece).2.Holds (text ++ piece)) ∨
      writeCb realloc resp piece = (0, resp) ∧ resp.cap < resp.len + piece.length + 1 ∧
        realloc (piece.length + 1024) = none := by
  unfold KoeCore.writeCb
  dsimp only
  split_ifs with hfull
  · rcases hrealloc : realloc (piece.length + 1024) with _ | fresh
    · exact Or.inr ⟨rfl, hfull, rfl⟩
    · have hlarger := hholds.enlarge fresh.toList
      rw [List.Vector.toList_length, ← Nat.add_assoc] at hlarger
      have hfront := hholds.front.length_le
      have hroom : resp.len + piece.length + 1 ≤ resp.cap + piece.length + 1024 := by
        rw [List.length_append, List.length_singleton, hholds.length_buf, ← hholds.len_eq] at hfront
        omega
      exact Or.inl ⟨rfl, hlarger.put hroom⟩
  · exact Or.inl ⟨rfl, hholds.put (Nat.not_lt.mp hfull)⟩

/-- Assumes: a buffer with a text that has no zero byte. -/
theorem HttpResponse.Holds.text_eq (hholds : resp.Holds text) (hzero : 0 ∉ text) :
    resp.text = text := by
  obtain ⟨rest, hbuf⟩ := hholds.front
  have htext : ∀ byte ∈ text, decide (byte ≠ 0) = true := by
    intro byte hbyte
    exact decide_eq_true fun heq ↦ hzero (heq ▸ hbyte)
  rw [HttpResponse.text, ← hbuf, List.append_assoc, List.takeWhile_append_of_pos htext]
  simp

/-- The pieces of a response, from a buffer with a text. Assumes: a buffer with a text. -/
theorem HttpResponse.Holds.receivePieces (pieces : List (List UInt8)) :
    ∀ {realloc : ℕ → Realloc} {resp : HttpResponse} {text : List UInt8}, resp.Holds text →
      let received := KoeCore.receivePieces realloc resp pieces
      ∃ front, front <+: pieces ∧ received.2.Holds (text ++ front.flatten) ∧
        (received.1 = true → front = pieces) ∧
        (received.1 = false → RunsOut realloc received.2 pieces front) := by
  induction pieces with
  | nil =>
    intro realloc resp text hholds
    refine ⟨[], List.prefix_rfl, ?_, fun _ ↦ rfl,
      fun hfalse ↦ absurd hfalse.symm Bool.false_ne_true⟩
    rw [List.flatten_nil, List.append_nil]
    exact hholds
  | cons piece pieces ih =>
    intro realloc resp text hholds
    -- A piece that was taken, and then the others.
    have htaken {after : HttpResponse} (hafter : after.Holds (text ++ piece)) :
        let received := KoeCore.receivePieces (fun call ↦ realloc (call + 1)) after pieces
        ∃ front, front <+: piece :: pieces ∧ received.2.Holds (text ++ front.flatten) ∧
          (received.1 = true → front = piece :: pieces) ∧
          (received.1 = false → RunsOut realloc received.2 (piece :: pieces) front) := by
      obtain ⟨front, hfront, hlast, hall, hfailed⟩ := ih hafter
      refine ⟨piece :: front, List.prefix_cons_inj piece |>.mpr hfront, ?_, ?_, hfailed⟩
      · rw [List.flatten_cons, ← List.append_assoc]
        exact hlast
      · intro htrue
        rw [hall htrue]
    rw [KoeCore.receivePieces]
    rcases hholds.writeCb (realloc 0) piece with ⟨hcount, hafter⟩ | ⟨hnone, hfull, hrealloc⟩
    · rw [if_neg (not_not.mpr hcount)]
      exact htaken hafter
    · rw [hnone]
      by_cases hempty : piece.length = 0
      · rw [if_neg (not_not.mpr hempty.symm)]
        refine htaken ?_
        rw [List.length_eq_zero_iff.mp hempty, List.append_nil]
        exact hholds
      · rw [if_pos (Ne.symm hempty)]
        refine ⟨[], List.nil_prefix, ?_, fun htrue ↦ absurd htrue Bool.false_ne_true,
          fun _ ↦ ⟨piece, rfl, hfull, hrealloc⟩⟩
        rw [List.flatten_nil, List.append_nil]
        exact hholds

end Response

/-- A response over all calls of `write_cb`, from a new buffer, each call with its own answer of
`realloc`. Nothing is written outside of the buffer, which holds the pieces that were taken and a
zero byte behind them. When libcurl reports success, these are all pieces; otherwise they are those
before the first piece that was not taken, whose call found no room in the buffer and got none from
`realloc`. -/
theorem writeCb_accumulates (realloc : ℕ → Realloc) (cap : ℕ) (pieces : List (List UInt8)) :
    let received := receivePieces realloc (.zeroed (cap + 1)) pieces
    ∃ front, front <+: pieces ∧ received.2.Holds front.flatten ∧
      (received.1 = true → front = pieces) ∧
      (received.1 = false → RunsOut realloc received.2 pieces front) :=
  (HttpResponse.holds_zeroed (Nat.succ_pos cap)).receivePieces pieces

/-! ### Requests -/

/-- `koe_matrix_ctx_t`. -/
structure MatrixCtx where
  homeserver : List UInt8
  accessToken : List UInt8
  userId : List UInt8
  useTls : ℤ
  timeoutMs : ℤ

/-- What reaches the server. -/
structure WireRequest where
  method : HttpMethod
  url : List UInt8
  headers : List (List UInt8)
  body : List UInt8
deriving DecidableEq

/-- What a request meets: whether libcurl starts, what the server answers, if anything, as the
status and the pieces of the response, and what `realloc` answers in each call of `write_cb`. -/
structure HttpEnv where
  curl : Bool
  server : WireRequest → Option (ℤ × List (List UInt8))
  realloc : ℕ → Realloc

/-- `KOE_MATRIX_TOKEN_MAX`. -/
def koeMatrixTokenMax : UInt64 := 512

/-- `KOE_MATRIX_USER_ID_MAX`. -/
def koeMatrixUserIdMax : UInt64 := 256

/-- The header with the access token. -/
def MatrixCtx.authorization (ctx : MatrixCtx) : List UInt8 :=
  printed 544 (ascii "Authorization: Bearer " ++ ctx.accessToken)

def MatrixCtx.wire (ctx : MatrixCtx) (request : HttpRequest) : WireRequest where
  method := request.method
  url := printed 512 (ctx.homeserver ++ request.path)
  headers := [ascii "Content-Type: application/json", ctx.authorization]
  body := request.body

/-- A status of success. -/
def IsSuccess (status : ℤ) : Prop := 200 ≤ status ∧ status < 300

instance (status : ℤ) : Decidable (IsSuccess status) := inferInstanceAs (Decidable (_ ∧ _))

/-- `matrix_http`, with a response buffer of the given capacity: the return code, and the text that
the caller finds in the buffer. -/
def matrixHttp (env : HttpEnv) (ctx : MatrixCtx) (cap : ℕ) : MatrixHttp := fun request ↦
  if !env.curl then (-1, [])
  else
    match env.server (ctx.wire request) with
    | none => (-1, [])
    | some (status, pieces) =>
      let received := receivePieces env.realloc (.zeroed cap) pieces
      (if received.1 = true ∧ IsSuccess status then 0 else -1, received.2.text)

section Requests

variable {env : HttpEnv} {ctx : MatrixCtx} {cap : ℕ} {request : HttpRequest}

/-- A request that succeeds. Assumes: a buffer, and the return code `0`. -/
theorem exists_answer_of_matrixHttp (hcap : 0 < cap)
    (hrc : (matrixHttp env ctx cap request).1 = 0) :
    ∃ status pieces, env.server (ctx.wire request) = some (status, pieces) ∧ IsSuccess status ∧
      (0 ∉ pieces.flatten → (matrixHttp env ctx cap request).2 = pieces.flatten) := by
  have hfailed : ¬ (-1 : ℤ) = 0 := by decide
  unfold matrixHttp at hrc ⊢
  by_cases hcurl : env.curl = true
  · simp only [hcurl, Bool.not_true, Bool.false_eq_true, if_false] at hrc ⊢
    rcases hserver : env.server (ctx.wire request) with _ | ⟨status, pieces⟩
    · rw [hserver] at hrc
      exact absurd hrc hfailed
    · rw [hserver] at hrc
      dsimp only at hrc ⊢
      split_ifs at hrc with hdone
      refine ⟨status, pieces, rfl, hdone.2, fun hzero ↦ ?_⟩
      obtain ⟨front, -, hholds, hall, -⟩ :=
        (HttpResponse.holds_zeroed hcap).receivePieces pieces
      rw [hall hdone.1, List.nil_append] at hholds
      exact hholds.text_eq hzero
  · simp only [hcurl, Bool.not_false, if_true] at hrc
    exact absurd hrc hfailed

end Requests

end KoeCore
