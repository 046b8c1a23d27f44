import KoeCore.Account.Registry
import KoeCore.Matrix.Fields

/-!
# Requests about Matrix rooms

The functions of `koe_matrix.c` that create a room, set its name or topic, invite a user, or kick,
ban and unban one. Each writes the body of its request with `snprintf` into a buffer on the stack
and passes it to `matrix_http`, which is a parameter here (`MatrixHttp`): it answers a request with
a return code and the text of the response.

A body is to be a JSON text of an object with the given strings as values (`RoomRequest.members`).
The strings are written into it as they are, so it is the shortest text of that object, cut to the
size of the buffer (`RoomRequest.body_eq`), and it is right exactly when no string needs an escape
and nothing was cut off (`koeMatrixRoom_body_iff`).
-/

set_option autoImplicit false
set_option relaxedAutoImplicit false

namespace KoeCore

open Json

/-- `http_method_t`. -/
inductive HttpMethod
  | get
  | post
  | put
deriving DecidableEq, Repr

/-- What a function passes to `matrix_http`. -/
structure HttpRequest where
  method : HttpMethod
  path : List UInt8
  body : List UInt8
deriving DecidableEq

/-- `matrix_http`: the return code, and the response. -/
abbrev MatrixHttp := HttpRequest → ℤ × List UInt8

/-- `KOE_MATRIX_ROOM_ID_MAX`. -/
def koeMatrixRoomIdMax : UInt64 := 256

/-- What `snprintf` leaves in a buffer of that size. -/
def printed (size : ℕ) (text : List UInt8) : List UInt8 := text.take (size - 1)

/-- The return code, the room id after the call, and the request. -/
def koeMatrixRoomCreate (http : MatrixHttp) (name topic : List UInt8)
    (roomIdOut : Option (List UInt8)) : ℤ × Option (List UInt8) × HttpRequest :=
  let body := printed 1024 (ascii "\x7b\"name\":\"" ++ name ++ ascii "\"," ++
    ascii "\"topic\":\"" ++ topic ++ ascii "\"," ++
    ascii "\"initial_state\":[\x7b" ++
    ascii "\"type\":\"m.room.encryption\"," ++
    ascii "\"state_key\":\"\"," ++
    ascii "\"content\":\x7b\"algorithm\":\"m.megolm.v1.aes-sha2\"\x7d" ++
    ascii "\x7d]\x7d")
  let request : HttpRequest := ⟨.post, ascii "/_matrix/client/r0/createRoom", body⟩
  let (rc, response) := http request
  let roomIdOut :=
    if rc = 0 then
      roomIdOut.map fun out ↦ (jsonGetStr response (ascii "room_id") out koeMatrixRoomIdMax).2
    else roomIdOut
  (rc, roomIdOut, request)

/-- A request about a room, with its return code. -/
def roomRequest (http : MatrixHttp) (method : HttpMethod) (roomId action body : List UInt8)
    (bodySize : ℕ) : ℤ × HttpRequest :=
  let path := printed 512 (ascii "/_matrix/client/r0/rooms/" ++ roomId ++ action)
  let request : HttpRequest := ⟨method, path, printed bodySize body⟩
  ((http request).1, request)

def koeMatrixRoomSetName (http : MatrixHttp) (roomId newName : List UInt8) : ℤ × HttpRequest :=
  roomRequest http .put roomId (ascii "/state/m.room.name")
    (ascii "\x7b\"name\":\"" ++ newName ++ ascii "\"\x7d") 256

def koeMatrixRoomSetTopic (http : MatrixHttp) (roomId newTopic : List UInt8) : ℤ × HttpRequest :=
  roomRequest http .put roomId (ascii "/state/m.room.topic")
    (ascii "\x7b\"topic\":\"" ++ newTopic ++ ascii "\"\x7d") 1200

def koeMatrixRoomInvite (http : MatrixHttp) (roomId userId : List UInt8) : ℤ × HttpRequest :=
  roomRequest http .post roomId (ascii "/invite")
    (ascii "\x7b\"user_id\":\"" ++ userId ++ ascii "\"\x7d") 512

def matrixMembershipAction (http : MatrixHttp) (roomId action userId : List UInt8)
    (reason : Option (List UInt8)) : ℤ × HttpRequest :=
  roomRequest http .post roomId (ascii "/" ++ action)
    (ascii "\x7b\"user_id\":\"" ++ userId ++ ascii "\",\"reason\":\"" ++ reason.getD [] ++
      ascii "\"\x7d") 512

def koeMatrixRoomKick (http : MatrixHttp) (roomId userId : List UInt8)
    (reason : Option (List UInt8)) : ℤ × HttpRequest :=
  matrixMembershipAction http roomId (ascii "kick") userId reason

def koeMatrixRoomBan (http : MatrixHttp) (roomId userId : List UInt8)
    (reason : Option (List UInt8)) : ℤ × HttpRequest :=
  matrixMembershipAction http roomId (ascii "ban") userId reason

def koeMatrixRoomUnban (http : MatrixHttp) (roomId userId : List UInt8) : ℤ × HttpRequest :=
  matrixMembershipAction http roomId (ascii "unban") userId (some [])

/-! ### Bodies -/

/-- A call of one of the functions. -/
inductive RoomRequest
  | create (name topic : List UInt8)
  | setName (roomId newName : List UInt8)
  | setTopic (roomId newTopic : List UInt8)
  | invite (roomId userId : List UInt8)
  | kick (roomId userId : List UInt8) (reason : Option (List UInt8))
  | ban (roomId userId : List UInt8) (reason : Option (List UInt8))
  | unban (roomId userId : List UInt8)
deriving DecidableEq

namespace RoomRequest

/-- The request that the call passes to `matrix_http`. -/
def httpRequest (http : MatrixHttp) : RoomRequest → HttpRequest
  | create name topic => (koeMatrixRoomCreate http name topic none).2.2
  | setName roomId newName => (koeMatrixRoomSetName http roomId newName).2
  | setTopic roomId newTopic => (koeMatrixRoomSetTopic http roomId newTopic).2
  | invite roomId userId => (koeMatrixRoomInvite http roomId userId).2
  | kick roomId userId reason => (koeMatrixRoomKick http roomId userId reason).2
  | ban roomId userId reason => (koeMatrixRoomBan http roomId userId reason).2
  | unban roomId userId => (koeMatrixRoomUnban http roomId userId).2

/-- The body that the call passes to `matrix_http`. -/
def body (http : MatrixHttp) (request : RoomRequest) : List UInt8 := (request.httpRequest http).body

/-- The size of the buffer for the body. -/
def bodySize : RoomRequest → ℕ
  | create _ _ => 1024
  | setName _ _ => 256
  | setTopic _ _ => 1200
  | invite _ _ => 512
  | kick _ _ _ => 512
  | ban _ _ _ => 512
  | unban _ _ => 512

/-- The strings that go into the body. -/
def strings : RoomRequest → List (List UInt8)
  | create name topic => [name, topic]
  | setName _ newName => [newName]
  | setTopic _ newTopic => [newTopic]
  | invite _ userId => [userId]
  | kick _ userId reason => [userId, reason.getD []]
  | ban _ userId reason => [userId, reason.getD []]
  | unban _ userId => [userId, []]

/-- The members that the body is to have. -/
def members : RoomRequest → List (List UInt8 × Value)
  | create name topic =>
    [(ascii "name", .string name), (ascii "topic", .string topic),
      (ascii "initial_state", .array [.object
        [(ascii "type", .string (ascii "m.room.encryption")), (ascii "state_key", .string []),
          (ascii "content", .object
            [(ascii "algorithm", .string (ascii "m.megolm.v1.aes-sha2"))])]])]
  | setName _ newName => [(ascii "name", .string newName)]
  | setTopic _ newTopic => [(ascii "topic", .string newTopic)]
  | invite _ userId => [(ascii "user_id", .string userId)]
  | kick _ userId reason =>
    [(ascii "user_id", .string userId), (ascii "reason", .string (reason.getD []))]
  | ban _ userId reason =>
    [(ascii "user_id", .string userId), (ascii "reason", .string (reason.getD []))]
  | unban _ userId => [(ascii "user_id", .string userId), (ascii "reason", .string [])]

/-- The body is the shortest text of the members, cut to the size of the buffer. -/
theorem body_eq (request : RoomRequest) (http : MatrixHttp) :
    request.body http =
      (Value.object request.members).compact.take (request.bodySize - 1) := by
  cases request <;>
    simp [body, httpRequest, members, bodySize, koeMatrixRoomCreate, koeMatrixRoomSetName,
      koeMatrixRoomSetTopic, koeMatrixRoomInvite, koeMatrixRoomKick, koeMatrixRoomBan,
      koeMatrixRoomUnban, matrixMembershipAction, roomRequest, printed, Value.compact, Value.tokens,
      memberTokens, itemTokens, Token.compact, ascii, quote, Mark.byte]

/-- The names of members, and the values that are always the same. -/
def fixedTexts : List (List UInt8) :=
  [ascii "name", ascii "topic", ascii "initial_state", ascii "type", ascii "m.room.encryption",
    ascii "state_key", [], ascii "content", ascii "algorithm", ascii "m.megolm.v1.aes-sha2",
    ascii "user_id", ascii "reason"]

theorem fixedTexts_isUtf8 : ∀ text ∈ fixedTexts, IsUtf8 text := by
  have hascii : ∀ text ∈ fixedTexts, text.all (fun byte ↦ byte.toNat < 128) = true := by decide
  exact fun text hmem ↦ isUtf8_of_ascii (hascii text hmem)

theorem fixedTexts_noEscapes : ∀ text ∈ fixedTexts, NoEscapes text := by decide

/-- Assumes: a predicate that holds for the texts that are always the same. -/
theorem holds_members_iff (request : RoomRequest) {p : List UInt8 → Prop}
    (hfixed : ∀ text ∈ fixedTexts, p text) :
    (Value.object request.members).Holds p ↔ ∀ text ∈ request.strings, p text := by
  simp only [fixedTexts, List.forall_mem_cons, List.not_mem_nil, IsEmpty.forall_iff, implies_true,
    and_true] at hfixed
  obtain ⟨hname, htopic, hstate, htype, hencryption, hkey, hempty, hcontent, halgorithm, hmegolm,
    huser, hreason⟩ := hfixed
  cases request <;>
    simp only [members, strings, Value.holds_object, Value.holds_array, Value.holds_string,
      List.forall_mem_cons, List.not_mem_nil, IsEmpty.forall_iff, implies_true, and_true, true_and,
      hname, htopic, hstate, htype, hencryption, hkey, hempty, hcontent, halgorithm, hmegolm, huser,
      hreason]

theorem bodySize_pos (request : RoomRequest) : 0 < request.bodySize := by
  cases request <;> exact Nat.succ_pos _

end RoomRequest

/-- The body of a request is a JSON text of the intended object exactly when none of the given
strings needs an escape and the text fits the buffer. Assumes: strings in UTF-8. -/
theorem koeMatrixRoom_body_iff (request : RoomRequest) (http : MatrixHttp)
    (hutf8 : ∀ text ∈ request.strings, IsUtf8 text) :
    IsObject (request.body http) request.members ↔
      (∀ text ∈ request.strings, NoEscapes text) ∧
        (Value.object request.members).compact.length < request.bodySize := by
  have hmembers := (request.holds_members_iff RoomRequest.fixedTexts_isUtf8).mpr hutf8
  rw [request.body_eq, isObject_take_iff hmembers,
    request.holds_members_iff RoomRequest.fixedTexts_noEscapes]
  exact and_congr_right fun _ ↦ Nat.le_sub_one_iff_lt request.bodySize_pos

/-- A room that is renamed to `ok`. -/
theorem plainName_isObject :
    IsObject ((RoomRequest.setName [] [0x6f, 0x6b]).body fun _ ↦ (0, []))
      (RoomRequest.setName [] [0x6f, 0x6b]).members := by
  refine (koeMatrixRoom_body_iff (.setName [] [0x6f, 0x6b]) _ ?_).mpr ⟨by decide, by decide⟩
  intro text hmem
  obtain rfl := List.mem_singleton.mp hmem
  exact isUtf8_of_ascii (by decide)

/-- A name that ends its string and begins another member. -/
def injectedName : List UInt8 := ascii "x\",\"topic\":\"y"

/-- The body gets a topic that the call was not given, and is not the object with that name. -/
theorem injectedName_adds_member :
    let request := RoomRequest.setName [] injectedName
    IsObject (request.body fun _ ↦ (0, []))
        [(ascii "name", .string [0x78]), (ascii "topic", .string [0x79])] ∧
      ¬ IsObject (request.body fun _ ↦ (0, [])) request.members := by
  intro request
  have hutf8 : ∀ text ∈ request.strings, IsUtf8 text := by
    intro text hmem
    obtain rfl := List.mem_singleton.mp hmem
    exact isUtf8_of_ascii (by decide)
  constructor
  · have hmembers : (Value.object
        [(ascii "name", .string [0x78]), (ascii "topic", .string [0x79])]).Holds IsUtf8 := by
      simp only [Value.holds_object, Value.holds_string, List.forall_mem_cons, List.not_mem_nil,
        IsEmpty.forall_iff, implies_true, and_true]
      exact ⟨⟨isUtf8_of_ascii (by decide), isUtf8_of_ascii (by decide)⟩,
        isUtf8_of_ascii (by decide), isUtf8_of_ascii (by decide)⟩
    refine (isObject_take_iff hmembers 255).mpr ⟨?_, by decide⟩
    simp only [Value.holds_object, Value.holds_string, List.forall_mem_cons, List.not_mem_nil,
      IsEmpty.forall_iff, implies_true, and_true]
    decide
  · rw [request.body_eq,
      isObject_take_iff ((request.holds_members_iff RoomRequest.fixedTexts_isUtf8).mpr hutf8),
      request.holds_members_iff RoomRequest.fixedTexts_noEscapes]
    intro hright
    exact absurd (hright.1 injectedName List.mem_cons_self) (by decide)

end KoeCore
