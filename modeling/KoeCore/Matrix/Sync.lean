import KoeCore.Library.Runs
import KoeCore.Matrix.Http

/-!
# Synchronisation with a homeserver

A client that calls `koe_matrix_sync` again and again with one token, which each response replaces.
The events of the homeserver are a log that grows. `SyncServer` is how it writes tokens and
responses, such that `json_get_str` finds the token of a response, and `SyncCall.Honest` that an
answer of success to a request with the token of a place is the response with the events behind that
place. An answer may also fail, be lost on the way or never come.

`SyncWorld.cursor` and `SyncWorld.batches` are the client as it is meant: a place in the log, and
the events that were read. `koeMatrixSync_refines_cursor` says that the code does this: the payloads
that the callback got are the responses with the batches, one after the other, the batches make up
the log up to the cursor, so no event is missing or there twice, and the token is that of the
cursor.
-/

set_option autoImplicit false
set_option relaxedAutoImplicit false

namespace KoeCore

open Json

/-- `%d`. -/
def printedInt (value : ℤ) : List UInt8 := ascii (toString value)

/-- The path of a request, without the cut of the buffer. -/
def syncPath (token : List UInt8) (timeoutMs : ℤ) : List UInt8 :=
  if token ≠ [] then
    ascii "/_matrix/client/r0/sync?since=" ++ token ++ ascii "&timeout=" ++ printedInt timeoutMs
  else ascii "/_matrix/client/r0/sync?timeout=" ++ printedInt timeoutMs

/-- What a call of `koe_matrix_sync` does: its return code, the token it leaves in `next_token`, and
the payloads it passes to the callback. -/
structure Synced where
  rc : ℤ
  nextToken : Option (List UInt8)
  payloads : List (List UInt8)

/-- A token or `next_token` that is `NULL` is `none`, and `cb` says whether there is a callback. -/
def koeMatrixSync (http : MatrixHttp) (token : Option (List UInt8)) (timeoutMs : ℤ) (cb : Bool)
    (nextToken : Option (List UInt8)) : Synced :=
  let path := printed 512 (syncPath (token.getD []) timeoutMs)
  let (rc, response) := http ⟨.get, path, []⟩
  if rc = 0 then
    ⟨0, nextToken.map fun out ↦ (jsonGetStr response (ascii "next_batch") out 256).2,
      if cb then [response] else []⟩
  else ⟨rc, nextToken, []⟩

/-! ### The homeserver -/

/-- How a homeserver writes the token of a place in the log and a response with the events up to a
place. Where the characters `"next_batch":` first occur in a response, they are followed by the
token in quotes, with nothing but spaces between; the rest of the response is the server's. -/
structure SyncServer (ε : Type*) where
  token : ℕ → List UInt8
  response : List ε → ℕ → List UInt8
  token_ne_nil : ∀ n, token n ≠ []
  length_token : ∀ n, (token n).length ≤ 255
  quote_notMem : ∀ n, quote ∉ token n
  zero_notMem : ∀ events next, 0 ∉ response events next
  nextBatch : ∀ events next, ∃ spaces rest, spaces.all (· == 0x20) = true ∧
    strstr (response events next) (ascii "\"next_batch\":") =
      some (ascii "\"next_batch\":" ++ (spaces ++ quote :: (token next ++ quote :: rest)))

section Server

variable {ε : Type*} (server : SyncServer ε)

/-- An answer that fails, or a response with the events behind a place. -/
def SyncServer.Answers (log : List ε) (place : ℕ) (answer : Option (ℤ × List (List UInt8))) :
    Prop :=
  ∀ status pieces, answer = some (status, pieces) → IsSuccess status →
    pieces.flatten = server.response (log.drop place) log.length

/-- The events of the homeserver, the token and the payloads of the client, and the client as it is
meant: the place up to which it has read, and what it has read, each time with the place behind
it. -/
structure SyncWorld (ε : Type*) where
  log : List ε
  token : List UInt8
  payloads : List (List UInt8)
  cursor : ℕ
  batches : List (List ε × ℕ)

inductive SyncCall (ε : Type*)
  | publish (event : ε)
  | sync (env : HttpEnv) (timeoutMs : ℤ)

def SyncWorld.start : SyncWorld ε := ⟨[], [], [], 0, []⟩

def SyncCall.step (ctx : MatrixCtx) (world : SyncWorld ε) : SyncCall ε → SyncWorld ε
  | publish event => { world with log := world.log ++ [event] }
  | sync env timeoutMs =>
    let synced := koeMatrixSync (matrixHttp env ctx 65536) (some world.token) timeoutMs true
      (some world.token)
    let world := { world with
      token := synced.nextToken.getD world.token
      payloads := world.payloads ++ synced.payloads }
    if synced.rc = 0 then
      { world with
        cursor := world.log.length
        batches := world.batches ++ [(world.log.drop world.cursor, world.log.length)] }
    else world

/-- The token of a client that has read up to a place, which is none before the first response. -/
def SyncWorld.expected (world : SyncWorld ε) : List UInt8 :=
  if world.batches = [] then [] else server.token world.cursor

/-- The server answers a request with a token as it should, whichever place it is of, and the URL of
the request fits its buffer. -/
def SyncCall.Honest (ctx : MatrixCtx) (world : SyncWorld ε) : SyncCall ε → Prop
  | publish _ => True
  | sync env timeoutMs =>
    (∀ wire, wire.url = ctx.homeserver ++ syncPath [] timeoutMs →
      server.Answers world.log 0 (env.server wire)) ∧
    (∀ place ≤ world.log.length, ∀ wire,
      wire.url = ctx.homeserver ++ syncPath (server.token place) timeoutMs →
        server.Answers world.log place (env.server wire)) ∧
    (ctx.homeserver ++ syncPath (world.expected server) timeoutMs).length < 512

/-- The client is as it is meant to be. -/
structure SyncWorld.Refines (world : SyncWorld ε) : Prop where
  payloads : world.payloads = world.batches.map fun batch ↦ server.response batch.1 batch.2
  batches : (world.batches.map Prod.fst).flatten = world.log.take world.cursor
  cursor_le : world.cursor ≤ world.log.length
  token : world.token = world.expected server
  first : world.batches = [] → world.cursor = 0

end Server

section Steps

variable {ε : Type*} {server : SyncServer ε} {ctx : MatrixCtx} {world : SyncWorld ε}

/-- The token of a response is found. -/
theorem SyncServer.jsonGetStr_response (server : SyncServer ε) (events : List ε) (next : ℕ)
    (out : List UInt8) :
    jsonGetStr (server.response events next) (ascii "next_batch") out 256 =
      (0, server.token next) := by
  have hpattern :
      (fieldPattern (ascii "next_batch")).take 255 = ascii "\"next_batch\":" := by decide
  obtain ⟨spaces, rest, hspaces, hfound⟩ := server.nextBatch events next
  have hscan : jsonScan (server.response events next) (ascii "\"next_batch\":") =
      some (server.token next) := by
    rw [jsonScan, hfound]
    dsimp only
    rw [List.drop_left, scanValue_spaces hspaces, takeWhile_quote]
    refine congrArg some (List.takeWhile_eq_self_iff.mpr fun byte hbyte ↦ ?_)
    exact bne_iff_ne.mpr fun heq ↦ server.quote_notMem next (heq ▸ hbyte)
  have hlength : (server.token next).take ((256 - 1 : UInt64).toNat) = server.token next :=
    List.take_of_length_le (server.length_token next)
  rw [jsonGetStr, hpattern, hscan]
  dsimp only
  rw [hlength]

/-- A text that fits its buffer is not cut. Assumes: a text shorter than the buffer. -/
theorem printed_of_lt {size : ℕ} {text : List UInt8} (hfits : text.length < size) :
    printed size text = text :=
  List.take_of_length_le (Nat.le_sub_one_of_lt hfits)

/-- What a request of the client gets. Assumes: a client as it is meant, an honest server, and the
return code `0`. -/
theorem SyncWorld.Refines.response (hrefines : world.Refines server) {env : HttpEnv}
    {timeoutMs : ℤ} (hhonest : (SyncCall.sync env timeoutMs).Honest server ctx world)
    (hrc : (matrixHttp env ctx 65536 ⟨.get, printed 512 (syncPath world.token timeoutMs), []⟩).1 =
      0) :
    (matrixHttp env ctx 65536 ⟨.get, printed 512 (syncPath world.token timeoutMs), []⟩).2 =
      server.response (world.log.drop world.cursor) world.log.length := by
  obtain ⟨hstart, hplaces, hfits⟩ := hhonest
  obtain ⟨status, pieces, hserver, hsuccess, htext⟩ :=
    exists_answer_of_matrixHttp (by decide) hrc
  rw [← hrefines.token] at hfits
  have hpath : (syncPath world.token timeoutMs).length < 512 := by
    rw [List.length_append] at hfits
    omega
  have hurl : (ctx.wire ⟨.get, printed 512 (syncPath world.token timeoutMs), []⟩).url =
      ctx.homeserver ++ syncPath world.token timeoutMs := by
    rw [MatrixCtx.wire, printed_of_lt hpath, printed_of_lt hfits]
  have hpieces : pieces.flatten =
      server.response (world.log.drop world.cursor) world.log.length := by
    have htoken := hrefines.token
    rw [SyncWorld.expected] at htoken
    split_ifs at htoken with hfirst
    · rw [hrefines.first hfirst]
      rw [htoken] at hurl hserver
      exact hstart _ hurl status pieces hserver hsuccess
    · rw [htoken] at hurl hserver
      exact hplaces world.cursor hrefines.cursor_le _ hurl status pieces hserver hsuccess
  rw [htext (hpieces ▸ server.zero_notMem _ _), hpieces]

/-- One call. Assumes: a client as it is meant, and an honest server. -/
theorem SyncWorld.Refines.step (hrefines : world.Refines server) {call : SyncCall ε}
    (hhonest : call.Honest server ctx world) : (call.step ctx world).Refines server := by
  cases call with
  | publish event =>
    refine ⟨hrefines.payloads, ?_, ?_, hrefines.token, hrefines.first⟩
    · rw [SyncCall.step, List.take_append_of_le_length hrefines.cursor_le]
      exact hrefines.batches
    · rw [SyncCall.step, List.length_append]
      exact hrefines.cursor_le.trans (Nat.le_add_right _ _)
  | sync env timeoutMs =>
    by_cases hrc : (matrixHttp env ctx 65536
        ⟨.get, printed 512 (syncPath world.token timeoutMs), []⟩).1 = 0
    · have hresponse := hrefines.response hhonest hrc
      have hsynced : koeMatrixSync (matrixHttp env ctx 65536) (some world.token) timeoutMs true
          (some world.token) = ⟨0, some (server.token world.log.length),
            [server.response (world.log.drop world.cursor) world.log.length]⟩ := by
        simp only [koeMatrixSync, Option.getD_some, hrc, hresponse, if_true, Option.map_some,
          server.jsonGetStr_response]
      simp only [SyncCall.step, hsynced, if_true, Option.getD_some]
      refine ⟨?_, ?_, le_rfl, ?_, ?_⟩
      · simp only [hrefines.payloads, List.map_append, List.map_cons, List.map_nil]
      · simp only [List.map_append, List.map_cons, List.map_nil, List.flatten_append,
          hrefines.batches, List.flatten_cons, List.flatten_nil, List.append_nil,
          List.take_append_drop, List.take_length]
      · simp [SyncWorld.expected]
      · intro hempty
        exact absurd hempty (by simp)
    · have hsynced : koeMatrixSync (matrixHttp env ctx 65536) (some world.token) timeoutMs true
          (some world.token) = ⟨(matrixHttp env ctx 65536
            ⟨.get, printed 512 (syncPath world.token timeoutMs), []⟩).1, some world.token, []⟩ := by
        simp only [koeMatrixSync, Option.getD_some, if_neg hrc]
      simp only [SyncCall.step, hsynced, if_neg hrc, Option.getD_some, List.append_nil]
      exact hrefines

end Steps

/-- A client that synchronises with one token reads the log of its homeserver from front to back.
Assumes: a homeserver that writes tokens and responses as `SyncServer` says, and a run in which it
is honest and the URLs fit. -/
theorem koeMatrixSync_refines_cursor {ε : Type*} (server : SyncServer ε) (ctx : MatrixCtx)
    (calls : List (SyncCall ε))
    (hhonest : Runs.AllSteps (SyncCall.step ctx) (fun world call ↦ call.Honest server ctx world)
      SyncWorld.start calls) :
    (calls.foldl (SyncCall.step ctx) SyncWorld.start).Refines server := by
  rw [← List.append_nil calls] at hhonest
  refine Runs.AllSteps.invariant ?_ calls hhonest ⟨rfl, rfl, le_rfl, rfl, fun _ ↦ rfl⟩
  intro world call hrefines hcall
  exact hrefines.step hcall

/-! ### A homeserver with two events -/

/-- The tokens of the places. -/
def toyToken : ℕ → List UInt8
  | 0 => ascii "s0"
  | 1 => ascii "s1"
  | _ => ascii "s2"

/-- What stands behind the token in a response. -/
def toyRest (events : List Bool) : List UInt8 :=
  (events.map fun event ↦ if event then 0x31 else 0x30) ++ [0x7d]

theorem zero_notMem_toyRest (events : List Bool) : 0 ∉ toyRest events := by
  rw [toyRest, List.mem_append, not_or]
  refine ⟨fun hzero ↦ ?_, by decide⟩
  obtain ⟨event, -, hevent⟩ := List.mem_map.mp hzero
  cases event <;> exact absurd hevent (by decide)

def toySyncServer : SyncServer Bool where
  token := toyToken
  response events next :=
    0x7b :: (ascii "\"next_batch\":" ++ ([] ++ quote :: (toyToken next ++ quote :: toyRest events)))
  token_ne_nil n := by unfold toyToken; split <;> decide
  length_token n := by unfold toyToken; split <;> decide
  quote_notMem n := by unfold toyToken; split <;> decide
  zero_notMem events next := by
    have hfixed : (0 : UInt8) ∉ ascii "\"next_batch\":" := by decide
    have htoken : (0 : UInt8) ∉ toyToken next := by unfold toyToken; split <;> decide
    simp only [List.mem_cons, List.mem_append, List.not_mem_nil, not_or, false_or]
    exact ⟨by decide, hfixed, by decide, htoken, by decide, zero_notMem_toyRest events⟩
  nextBatch events next := by
    refine ⟨[], toyRest events, rfl, ?_⟩
    have hbrace (rest : List UInt8) : ¬ ascii "\"next_batch\":" <+: 0x7b :: rest := fun hfront ↦
      absurd (List.cons_prefix_cons.mp hfront).1 (by decide)
    rw [strstr_cons_of_not (hbrace _)]
    exact strstr_at_start (List.prefix_append _ _)

def toySyncCtx : MatrixCtx := ⟨ascii "https://h", ascii "t", ascii "@u:h", 1, 10000⟩

/-- What the server answers for a URL, over its log. -/
def toyAnswer (log : List Bool) (url : List UInt8) : Option (ℤ × List (List UInt8)) :=
  if url = toySyncCtx.homeserver ++ syncPath [] 0 then
    some (200, [toySyncServer.response log log.length])
  else
    ((List.range (log.length + 1)).find? fun place ↦
      url = toySyncCtx.homeserver ++ syncPath (toySyncServer.token place) 0).map fun place ↦
        (200, [toySyncServer.response (log.drop place) log.length])

def toySyncEnv (log : List Bool) : HttpEnv where
  curl := true
  server wire := toyAnswer log wire.url
  realloc _ size := some (ByteWire.Block.zero size)

/-- A connection that breaks. -/
def lostEnv : HttpEnv := ⟨true, fun _ ↦ none, fun _ _ ↦ none⟩

/-- Assumes: the server answers as it should over the log of the world, and the URL fits. -/
theorem honest_toySync {world : SyncWorld Bool}
    (hstart : toyAnswer world.log (toySyncCtx.homeserver ++ syncPath [] 0) =
      some (200, [toySyncServer.response world.log world.log.length]))
    (hplaces : ∀ place ≤ world.log.length,
      toyAnswer world.log (toySyncCtx.homeserver ++ syncPath (toySyncServer.token place) 0) =
        some (200, [toySyncServer.response (world.log.drop place) world.log.length]))
    (hfits : (toySyncCtx.homeserver ++ syncPath (world.expected toySyncServer) 0).length < 512) :
    (SyncCall.sync (toySyncEnv world.log) 0).Honest toySyncServer toySyncCtx world := by
  refine ⟨fun wire hurl status pieces hanswer _ ↦ ?_,
    fun place hplace wire hurl status pieces hanswer _ ↦ ?_, hfits⟩
  · change toyAnswer world.log wire.url = _ at hanswer
    rw [hurl, hstart] at hanswer
    obtain ⟨-, rfl⟩ := Prod.mk.inj (Option.some.inj hanswer)
    exact List.append_nil _
  · change toyAnswer world.log wire.url = _ at hanswer
    rw [hurl, hplaces place hplace] at hanswer
    obtain ⟨-, rfl⟩ := Prod.mk.inj (Option.some.inj hanswer)
    exact List.append_nil _

/-- An event, a request, another event, a request that is lost, and one that is not. -/
def toySyncCalls : List (SyncCall Bool) :=
  [.publish true, .sync (toySyncEnv [true]) 0, .publish false, .sync lostEnv 0,
    .sync (toySyncEnv [true, false]) 0]

theorem toySyncCalls_refine :
    let world := toySyncCalls.foldl (SyncCall.step toySyncCtx) SyncWorld.start
    world.cursor = 2 ∧ world.Refines toySyncServer := by
  refine ⟨by decide +kernel, koeMatrixSync_refines_cursor toySyncServer toySyncCtx _ ?_⟩
  refine ⟨trivial, ?_, trivial, ?_, ?_, trivial⟩
  · exact honest_toySync (by decide +kernel) (by decide +kernel) (by decide +kernel)
  · exact ⟨fun _ _ _ _ hnone ↦ absurd hnone (by simp [lostEnv]),
      fun _ _ _ _ _ _ hnone ↦ absurd hnone (by simp [lostEnv]), by decide +kernel⟩
  · exact honest_toySync (by decide +kernel) (by decide +kernel) (by decide +kernel)

end KoeCore
