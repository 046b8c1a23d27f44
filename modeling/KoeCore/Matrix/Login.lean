import KoeCore.Identity.ShortId
import KoeCore.Matrix.Sync
import KoeCore.Protocol.Sodium

/-!
# Logging in and out

The functions of `koe_matrix.c` that open and close a session with a homeserver, and the requests
that are not in `KoeCore.Matrix.Rooms`: joining and leaving a room, power levels and what an upload
sends. A user has no password of their own; the one that is sent is the Base64 text of a hash of the
secret key, the same at every homeserver.

The strings of the login are not taken from the caller as those of the other requests are. They
need no escapes and have fixed lengths, so the body is always the JSON text that it should be
(`koeMatrixLogin_body`). Of the encoder, which is libsodium's, this takes its alphabet and the
length of its text (`Sodium.EncodesBase64`).
-/

set_option autoImplicit false
set_option relaxedAutoImplicit false

namespace KoeCore

open ByteWire Json

/-! ### The functions -/

/-- The hash of the secret key that serves as a password. -/
def matrixPassword (S : Sodium) (id : Identity) : List UInt8 :=
  S.sodiumBin2base64 (S.cryptoGenerichash 32 (id.sk.toList ++ ascii "koe-matrix-auth") 32).toList

/-- The body of a login. -/
def loginBody (S : Sodium) (id : Identity) : List UInt8 :=
  printed 512 (ascii "\x7b\"type\":\"m.login.password\"," ++
    ascii "\"user\":\"" ++ koeIdentityShortId id.pk ++ ascii "\"," ++
    ascii "\"password\":\"" ++ matrixPassword S id ++ ascii "\"\x7d")

/-- The context with which a login makes its request. -/
def MatrixCtx.headedFor (ctx : MatrixCtx) (homeserver : List UInt8) : MatrixCtx :=
  { ctx with homeserver := strncpy 255 homeserver, useTls := 1, timeoutMs := 10000 }

def loginRequest (S : Sodium) (id : Identity) : HttpRequest :=
  ⟨.post, ascii "/_matrix/client/r0/login", loginBody S id⟩

/-- The return code, and the context after the call. -/
def koeMatrixLogin (S : Sodium) (env : HttpEnv) (ctx : MatrixCtx) (id : Identity)
    (homeserver : List UInt8) : ℤ × MatrixCtx :=
  let ctx := ctx.headedFor homeserver
  let (rc, response) := matrixHttp env ctx 4096 (loginRequest S id)
  if rc = 0 then
    (rc, { ctx with
      accessToken :=
        (jsonGetStr response (ascii "access_token") ctx.accessToken koeMatrixTokenMax).2
      userId := (jsonGetStr response (ascii "user_id") ctx.userId koeMatrixUserIdMax).2 })
  else (rc, ctx)

def logoutRequest : HttpRequest := ⟨.post, ascii "/_matrix/client/r0/logout", ascii "\x7b\x7d"⟩

/-- The return code, and the context after the call. -/
def koeMatrixLogout (env : HttpEnv) (ctx : MatrixCtx) : ℤ × MatrixCtx :=
  ((matrixHttp env ctx 256 logoutRequest).1, { ctx with accessToken := [] })

/-- A request about a room with an empty object as its body. -/
def roomAction (http : MatrixHttp) (roomId action : List UInt8) : ℤ × HttpRequest :=
  let path := printed 512 (ascii "/_matrix/client/r0/rooms/" ++ roomId ++ action)
  let request : HttpRequest := ⟨.post, path, ascii "\x7b\x7d"⟩
  ((http request).1, request)

def koeMatrixRoomJoin (http : MatrixHttp) (roomId : List UInt8) : ℤ × HttpRequest :=
  roomAction http roomId (ascii "/join")

def koeMatrixRoomLeave (http : MatrixHttp) (roomId : List UInt8) : ℤ × HttpRequest :=
  roomAction http roomId (ascii "/leave")

def koeMatrixRoomSetPower (http : MatrixHttp) (roomId userId : List UInt8) (powerLevel : ℤ) :
    ℤ × HttpRequest :=
  roomRequest http .put roomId (ascii "/state/m.room.power_levels")
    (ascii "\x7b\"users\":\x7b\"" ++ userId ++ ascii "\":" ++ printedInt powerLevel ++
      ascii "\x7d\x7d") 512

/-- What an upload sends. -/
def MatrixCtx.uploadWire (ctx : MatrixCtx) (data contentType : List UInt8) : WireRequest where
  method := .post
  url := printed 512 (ctx.homeserver ++ ascii "/_matrix/media/r0/upload")
  headers := [ctx.authorization, printed 256 (ascii "Content-Type: " ++ contentType)]
  body := data

/-! ### The body of a login -/

/-- The characters of Base64 for URLs. -/
def base64Alphabet : List UInt8 :=
  ascii "ABCDEFGHIJKLMNOPQRSTUVWXYZabcdefghijklmnopqrstuvwxyz0123456789-_"

/-- `sodium_bin2base64` writes characters of the alphabet, and 43 of them for 32 bytes. -/
structure Sodium.EncodesBase64 (S : Sodium) : Prop where
  mem_alphabet : ∀ {bytes byte}, byte ∈ S.sodiumBin2base64 bytes → byte ∈ base64Alphabet
  length_eq : ∀ {bytes : List UInt8}, bytes.length = 32 → (S.sodiumBin2base64 bytes).length = 43

/-- The members that the body of a login is to have. -/
def loginMembers (S : Sodium) (id : Identity) : List (List UInt8 × Value) :=
  [(ascii "type", .string (ascii "m.login.password")),
    (ascii "user", .string (koeIdentityShortId id.pk)),
    (ascii "password", .string (matrixPassword S id))]

section Body

variable {S : Sodium} (id : Identity)

theorem loginBody_eq (S : Sodium) :
    loginBody S id = (Value.object (loginMembers S id)).compact.take 511 := by
  simp [loginBody, loginMembers, printed, Value.compact, Value.tokens, memberTokens, Token.compact,
    ascii, quote, Mark.byte]

/-- A text over the two alphabets is in ASCII, and its characters stand for themselves. Assumes: a
text over the two alphabets. -/
theorem plain_of_alphabets {text : List UInt8}
    (htext : ∀ byte ∈ text, byte ∈ b58Alpha ++ base64Alphabet) : IsUtf8 text ∧ NoEscapes text := by
  have hascii : (b58Alpha ++ base64Alphabet).all (fun byte ↦ byte.toNat < 128) = true := by
    decide +kernel
  have hplain : NoEscapes (b58Alpha ++ base64Alphabet) := by decide +kernel
  refine ⟨isUtf8_of_ascii (List.all_eq_true.mpr fun byte hbyte ↦ ?_), fun byte hbyte ↦ ?_⟩
  · exact List.all_eq_true.mp hascii byte (htext byte hbyte)
  · exact hplain byte (htext byte hbyte)

/-- The texts of a login are in UTF-8 and need no escapes. Assumes: nothing of the two values but
their alphabets, and of a predicate that it holds for such texts. -/
theorem holds_loginMembers (hbase64 : S.EncodesBase64) {p : List UInt8 → Prop}
    (hfixed : ∀ text ∈ [ascii "type", ascii "m.login.password", ascii "user", ascii "password"],
      p text)
    (hvalues : ∀ text : List UInt8, (∀ byte ∈ text, byte ∈ b58Alpha ++ base64Alphabet) → p text) :
    (Value.object (loginMembers S id)).Holds p := by
  simp only [List.forall_mem_cons, List.not_mem_nil, IsEmpty.forall_iff, implies_true,
    and_true] at hfixed
  obtain ⟨htype, hlogin, huser, hpassword⟩ := hfixed
  have hid : p (koeIdentityShortId id.pk) := hvalues _ fun byte hbyte ↦
    List.mem_append_left _ (mem_b58Alpha_of_mem_shortId id.pk byte hbyte)
  have hsecret : p (matrixPassword S id) := hvalues _ fun byte hbyte ↦
    List.mem_append_right _ (hbase64.mem_alphabet hbyte)
  simp only [loginMembers, Value.holds_object, Value.holds_string, List.forall_mem_cons,
    List.not_mem_nil, IsEmpty.forall_iff, implies_true, and_true]
  exact ⟨⟨htype, hlogin⟩, ⟨huser, hid⟩, hpassword, hsecret⟩

theorem length_matrixPassword (hbase64 : S.EncodesBase64) : (matrixPassword S id).length = 43 :=
  hbase64.length_eq (List.Vector.toList_length _)

/-- The body of every login is a JSON text of its three members; it is never cut. Assumes: Base64
for URLs from libsodium. -/
theorem koeMatrixLogin_body (hbase64 : S.EncodesBase64) :
    IsObject (loginBody S id) (loginMembers S id) := by
  have hutf8 : (Value.object (loginMembers S id)).Holds IsUtf8 := by
    refine holds_loginMembers id hbase64 ?_ fun text htext ↦ (plain_of_alphabets htext).1
    have hascii : ∀ text ∈ [ascii "type", ascii "m.login.password", ascii "user",
        ascii "password"], text.all (fun byte ↦ byte.toNat < 128) = true := by decide
    exact fun text htext ↦ isUtf8_of_ascii (hascii text htext)
  have hplain : (Value.object (loginMembers S id)).Holds NoEscapes :=
    holds_loginMembers id hbase64 (by decide) fun text htext ↦ (plain_of_alphabets htext).2
  have hlength : (Value.object (loginMembers S id)).compact.length = 109 := by
    simp [loginMembers, Value.compact, Value.tokens, memberTokens, Token.compact, ascii,
      length_matrixPassword id hbase64, length_koeIdentityShortId]
  rw [loginBody_eq, isObject_take_iff hutf8]
  exact ⟨hplain, hlength ▸ by decide⟩

end Body

theorem Sodium.transparent_encodesBase64 : Sodium.transparent.EncodesBase64 where
  mem_alphabet := by
    intro bytes byte hbyte
    rw [List.eq_of_mem_replicate hbyte]
    decide
  length_eq := by
    intro bytes hlength
    change (List.replicate ((4 * bytes.length + 2) / 3) (0x41 : UInt8)).length = 43
    rw [List.length_replicate, hlength]

/-- The login of an identity of the stand-in. -/
theorem transparentLogin_body :
    IsObject (loginBody Sodium.transparent (Sodium.transparentIdentity 1))
      (loginMembers Sodium.transparent (Sodium.transparentIdentity 1)) :=
  koeMatrixLogin_body _ Sodium.transparent_encodesBase64

end KoeCore
