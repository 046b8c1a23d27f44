import KoeCore.Library.Runs
import KoeCore.Matrix.Login

/-!
# Who gets an access token

A context of `koe_matrix.c` over all calls of the module. The access token is that of the last login
whose response had one, until a logout; the homeserver is that of the last login, whether it
succeeded or not. Every request takes both from the context, the request of a login included, which
already goes to the new homeserver and still has the old token.

`TokenWorld` notes for every request which homeserver its token is from. `koeMatrixTokens_stay_iff`
says when tokens stay with the homeservers that issued them: in the runs in which a login to another
homeserver is only made without a token, which takes a logout. Neither a login that fails nor a
response without a token makes up for it.
-/

set_option autoImplicit false
set_option relaxedAutoImplicit false

namespace KoeCore

open ByteWire Json

/-! ### Calls and requests -/

/-- A call of the module. -/
inductive MatrixCall
  | login (id : Identity) (homeserver : List UInt8)
  | logout
  | room (request : RoomRequest)
  | join (roomId : List UInt8)
  | leave (roomId : List UInt8)
  | setPower (roomId userId : List UInt8) (powerLevel : ℤ)
  | sync (token : List UInt8) (timeoutMs : ℤ)
  | upload (data contentType : List UInt8)

/-- The context with which a call makes its request. -/
def MatrixCall.using (ctx : MatrixCtx) : MatrixCall → MatrixCtx
  | login _ homeserver => ctx.headedFor homeserver
  | _ => ctx

/-- What a call sends. -/
def MatrixCall.wire (S : Sodium) (env : HttpEnv) (ctx : MatrixCtx) : MatrixCall → WireRequest
  | login id homeserver => (ctx.headedFor homeserver).wire (loginRequest S id)
  | logout => ctx.wire logoutRequest
  | room request => ctx.wire (request.httpRequest (matrixHttp env ctx 256))
  | join roomId => ctx.wire (koeMatrixRoomJoin (matrixHttp env ctx 256) roomId).2
  | leave roomId => ctx.wire (koeMatrixRoomLeave (matrixHttp env ctx 256) roomId).2
  | setPower roomId userId powerLevel =>
    ctx.wire (koeMatrixRoomSetPower (matrixHttp env ctx 256) roomId userId powerLevel).2
  | sync token timeoutMs => ctx.wire ⟨.get, printed 512 (syncPath token timeoutMs), []⟩
  | upload data contentType => ctx.uploadWire data contentType

/-- The context after a call. -/
def MatrixCall.after (S : Sodium) (env : HttpEnv) (ctx : MatrixCtx) : MatrixCall → MatrixCtx
  | login id homeserver => (koeMatrixLogin S env ctx id homeserver).2
  | logout => (koeMatrixLogout env ctx).2
  | _ => ctx

/-- A request that was handed to libcurl: the context at that time, what was sent, and the
homeserver whose response the token in the context is from. -/
structure TokenRequest where
  ctx : MatrixCtx
  wire : WireRequest
  issuer : List UInt8

/-- The token of a request, if there is one, is from the homeserver that it is sent to. -/
def TokenRequest.StaysHome (sending : TokenRequest) : Prop :=
  sending.ctx.accessToken ≠ [] → sending.issuer = sending.ctx.homeserver

/-- A context, the homeserver that its token is from, and all requests so far. -/
structure TokenWorld where
  ctx : MatrixCtx
  issuer : List UInt8
  sendings : List TokenRequest

/-- The context that `koe_init` leaves. -/
def TokenWorld.start : TokenWorld := ⟨⟨[], [], [], 0, 0⟩, [], []⟩

/-- A login whose response has a token. -/
def IssuesToken (S : Sodium) (env : HttpEnv) (ctx : MatrixCtx) (id : Identity)
    (homeserver : List UInt8) : Prop :=
  let answered := matrixHttp env (ctx.headedFor homeserver) 4096 (loginRequest S id)
  answered.1 = 0 ∧ (jsonGetStr answered.2 (ascii "access_token") ctx.accessToken
    koeMatrixTokenMax).1 = 0

instance decidableIssuesToken (S : Sodium) (env : HttpEnv) (ctx : MatrixCtx) (id : Identity)
    (homeserver : List UInt8) : Decidable (IssuesToken S env ctx id homeserver) :=
  inferInstanceAs (Decidable (_ ∧ _))

/-- The homeserver whose response the token is from, after a call. -/
def MatrixCall.issuer (S : Sodium) (env : HttpEnv) (world : TokenWorld) : MatrixCall → List UInt8
  | login id homeserver =>
    if IssuesToken S env world.ctx id homeserver then strncpy 255 homeserver else world.issuer
  | _ => world.issuer

/-- The request of a call. -/
def TokenWorld.sending (S : Sodium) (world : TokenWorld) (call : HttpEnv × MatrixCall) :
    TokenRequest :=
  ⟨call.2.using world.ctx, call.2.wire S call.1 world.ctx, world.issuer⟩

def TokenWorld.step (S : Sodium) (world : TokenWorld) (call : HttpEnv × MatrixCall) :
    TokenWorld where
  ctx := call.2.after S call.1 world.ctx
  issuer := call.2.issuer S call.1 world
  sendings := world.sendings ++ if call.1.curl then [world.sending S call] else []

/-- A login is to the homeserver of the last one, or made without a token. -/
def TokenWorld.Careful (world : TokenWorld) : HttpEnv × MatrixCall → Prop
  | (_, .login _ homeserver) =>
    world.ctx.accessToken = [] ∨ strncpy 255 homeserver = world.ctx.homeserver
  | _ => True

/-- The token of the context, if there is one, is from its homeserver. -/
def TokenWorld.Home (world : TokenWorld) : Prop :=
  world.ctx.accessToken ≠ [] → world.issuer = world.ctx.homeserver

/-- What was sent is for the homeserver of the context, and has its whole token in a header. -/
def TokenRequest.Truthful (sending : TokenRequest) : Prop :=
  (∃ path, sending.wire.url = printed 512 (sending.ctx.homeserver ++ path)) ∧
    ascii "Authorization: Bearer " ++ sending.ctx.accessToken ∈ sending.wire.headers

/-- All requests are truthful, and the token fits its buffer. -/
structure TokenWorld.Sound (world : TokenWorld) : Prop where
  truthful : ∀ sending ∈ world.sendings, sending.Truthful
  length_token : world.ctx.accessToken.length ≤ 511

section Steps

variable {S : Sodium} {world : TokenWorld} {env : HttpEnv} {call : HttpEnv × MatrixCall}

theorem koeMatrixLogin_homeserver (S : Sodium) (env : HttpEnv) (ctx : MatrixCtx) (id : Identity)
    (homeserver : List UInt8) :
    (koeMatrixLogin S env ctx id homeserver).2.homeserver = strncpy 255 homeserver := by
  simp only [koeMatrixLogin]
  split_ifs
  · rfl
  · rfl

/-- A login keeps the token unless its response has one. Assumes: no token in the response. -/
theorem koeMatrixLogin_accessToken {ctx : MatrixCtx} {id : Identity} {homeserver : List UInt8}
    (hkept : ¬ IssuesToken S env ctx id homeserver) :
    (koeMatrixLogin S env ctx id homeserver).2.accessToken = ctx.accessToken := by
  simp only [koeMatrixLogin]
  split_ifs with hrc
  · have hmissing : (jsonGetStr (matrixHttp env (ctx.headedFor homeserver) 4096
        (loginRequest S id)).2 (ascii "access_token") ctx.accessToken koeMatrixTokenMax).1 ≠ 0 :=
      fun hfound ↦ hkept ⟨hrc, hfound⟩
    simp only [jsonGetStr] at hmissing ⊢
    split
    · rfl
    · next copied hscan =>
      rw [hscan] at hmissing
      exact absurd rfl hmissing
  · rfl

/-! ### Requests as they are sent -/

/-- Assumes: a token that fits its buffer. -/
theorem authorization_eq {ctx : MatrixCtx} (hlength : ctx.accessToken.length ≤ 511) :
    ctx.authorization = ascii "Authorization: Bearer " ++ ctx.accessToken := by
  refine printed_of_lt ?_
  rw [List.length_append]
  exact Nat.lt_of_le_of_lt (Nat.add_le_add_left hlength _) (by decide)

/-- Assumes: a token that fits its buffer. -/
theorem truthful_wire {ctx : MatrixCtx} (hlength : ctx.accessToken.length ≤ 511)
    (request : HttpRequest) (issuer : List UInt8) :
    (⟨ctx, ctx.wire request, issuer⟩ : TokenRequest).Truthful := by
  refine ⟨⟨request.path, rfl⟩, ?_⟩
  rw [← authorization_eq hlength]
  exact List.mem_cons_of_mem _ List.mem_cons_self

/-- Every call sends a truthful request. Assumes: a token that fits its buffer. -/
theorem truthful_sending (S : Sodium) (hlength : world.ctx.accessToken.length ≤ 511)
    (call : HttpEnv × MatrixCall) : (world.sending S call).Truthful := by
  have hheaded (homeserver : List UInt8) :
      (world.ctx.headedFor homeserver).accessToken.length ≤ 511 := hlength
  obtain ⟨env, call⟩ := call
  cases call with
  | login id homeserver => exact truthful_wire (hheaded homeserver) _ _
  | logout => exact truthful_wire hlength _ _
  | room request => exact truthful_wire hlength _ _
  | join roomId => exact truthful_wire hlength _ _
  | leave roomId => exact truthful_wire hlength _ _
  | setPower roomId userId powerLevel => exact truthful_wire hlength _ _
  | sync token timeoutMs => exact truthful_wire hlength _ _
  | upload data contentType =>
    refine ⟨⟨_, rfl⟩, ?_⟩
    change _ ∈ (world.ctx.uploadWire data contentType).headers
    rw [MatrixCtx.uploadWire, authorization_eq hlength]
    exact List.mem_cons_self

/-- Assumes: an old token that fits the buffer. -/
theorem length_jsonGetStr_le {out : List UInt8} (hout : out.length ≤ 511)
    (response key : List UInt8) :
    (jsonGetStr response key out koeMatrixTokenMax).2.length ≤ 511 := by
  rw [jsonGetStr]
  split
  · exact hout
  · exact List.length_take_le _ _

theorem TokenWorld.Sound.step (hsound : world.Sound) (call : HttpEnv × MatrixCall) :
    (world.step S call).Sound := by
  refine ⟨fun sending hsending ↦ ?_, ?_⟩
  · rcases List.mem_append.mp hsending with hbefore | hnow
    · exact hsound.truthful sending hbefore
    · split_ifs at hnow with hcurl
      · obtain rfl := List.mem_singleton.mp hnow
        exact truthful_sending S hsound.length_token call
      · exact absurd hnow List.not_mem_nil
  · obtain ⟨env, call⟩ := call
    cases call with
    | login id homeserver =>
      simp only [TokenWorld.step, MatrixCall.after, koeMatrixLogin]
      split_ifs
      · exact length_jsonGetStr_le hsound.length_token _ _
      · exact hsound.length_token
    | logout => exact Nat.zero_le _
    | _ => exact hsound.length_token

/-! ### Tokens that stay -/

/-- Assumes: a token from the homeserver, and a careful call. -/
theorem TokenWorld.Home.step (hhome : world.Home) (hcareful : world.Careful call) :
    (world.step S call).Home := by
  obtain ⟨env, call⟩ := call
  cases call with
  | login id homeserver =>
    intro htoken
    change (koeMatrixLogin S env world.ctx id homeserver).2.accessToken ≠ [] at htoken
    change (if IssuesToken S env world.ctx id homeserver then strncpy 255 homeserver
      else world.issuer) = (koeMatrixLogin S env world.ctx id homeserver).2.homeserver
    rw [koeMatrixLogin_homeserver]
    split_ifs with hissues
    · rfl
    · -- The old token is kept, so there was one, and the homeserver is the same.
      rw [koeMatrixLogin_accessToken hissues] at htoken
      rw [hhome htoken]
      exact (hcareful.resolve_left htoken).symm
  | logout => exact fun htoken ↦ absurd rfl htoken
  | _ => exact hhome

/-- The request of a call stays home exactly when the call is careful. Assumes: a token from the
homeserver. -/
theorem TokenWorld.Home.staysHome_iff (hhome : world.Home) :
    (world.sending S call).StaysHome ↔ world.Careful call := by
  obtain ⟨env, call⟩ := call
  cases call with
  | login id homeserver =>
    change (world.ctx.accessToken ≠ [] → world.issuer = strncpy 255 homeserver) ↔
      world.ctx.accessToken = [] ∨ strncpy 255 homeserver = world.ctx.homeserver
    constructor
    · intro hstays
      refine or_iff_not_imp_left.mpr fun htoken ↦ ?_
      rw [← hstays htoken, hhome htoken]
    · intro hcareful htoken
      rw [hhome htoken, hcareful.resolve_left htoken]
  | _ => exact ⟨fun _ ↦ trivial, fun _ ↦ hhome⟩

theorem sendings_subset_run (calls : List (HttpEnv × MatrixCall)) (world : TokenWorld) :
    world.sendings ⊆ (calls.foldl (TokenWorld.step S) world).sendings := by
  induction calls generalizing world with
  | nil => exact List.Subset.refl _
  | cons call calls ih =>
    intro sending hsending
    exact ih (world.step S call) (List.mem_append_left _ hsending)

/-- Assumes: a token from the homeserver, and that libcurl always starts. -/
theorem TokenWorld.Home.run_iff (calls : List (HttpEnv × MatrixCall))
    (hcurl : ∀ call ∈ calls, call.1.curl = true) :
    ∀ {world : TokenWorld}, world.Home →
      ((∀ sending ∈ (calls.foldl (TokenWorld.step S) world).sendings, sending.StaysHome) ↔
        (∀ sending ∈ world.sendings, sending.StaysHome) ∧
          Runs.AllSteps (TokenWorld.step S) TokenWorld.Careful world calls) := by
  induction calls with
  | nil =>
    intro world _
    exact ⟨fun hstays ↦ ⟨hstays, trivial⟩, And.left⟩
  | cons call calls ih =>
    intro world hhome
    obtain ⟨hfirst, hrest⟩ := List.forall_mem_cons.mp hcurl
    have hsendings :
        (world.step S call).sendings = world.sendings ++ [world.sending S call] := by
      rw [TokenWorld.step, if_pos hfirst]
    by_cases hcareful : world.Careful call
    · rw [List.foldl_cons, ih hrest (hhome.step hcareful), hsendings, List.forall_mem_append,
        List.forall_mem_singleton, hhome.staysHome_iff, Runs.AllSteps, and_assoc]
    · -- The first careless login gives itself away, whatever comes after it.
      refine iff_of_false (fun hstays ↦ ?_) fun hall ↦ hcareful hall.2.1
      refine hcareful (hhome.staysHome_iff.mp (hstays (world.sending S call) ?_))
      refine sendings_subset_run calls (world.step S call) ?_
      rw [hsendings]
      exact List.mem_append_right _ (List.mem_singleton_self _)

end Steps

/-- Which requests have which token, over every run from a new context. Each is sent to the
homeserver of its context with the token of its context. Every token stays with the homeserver that
issued it exactly when every login to another homeserver is made without a token. Assumes: libcurl
always starts. -/
theorem koeMatrixTokens_stay_iff (S : Sodium) (calls : List (HttpEnv × MatrixCall))
    (hcurl : ∀ call ∈ calls, call.1.curl = true) :
    let world := calls.foldl (TokenWorld.step S) TokenWorld.start
    (∀ sending ∈ world.sendings, sending.Truthful) ∧
      ((∀ sending ∈ world.sendings, sending.StaysHome) ↔
        Runs.AllSteps (TokenWorld.step S) TokenWorld.Careful TokenWorld.start calls) := by
  intro world
  have hsound : world.Sound :=
    List.foldlRecOn calls _ ⟨fun _ hmem ↦ absurd hmem List.not_mem_nil, Nat.zero_le _⟩
      fun _ hbefore call _ ↦ hbefore.step call
  have hhome : TokenWorld.start.Home := fun htoken ↦ absurd rfl htoken
  refine ⟨hsound.truthful, ?_⟩
  rw [hhome.run_iff calls hcurl]
  exact and_iff_right fun _ hmem ↦ absurd hmem List.not_mem_nil

/-! ### A second homeserver -/

/-- A homeserver that answers every request with a token. -/
def issuingEnv : HttpEnv where
  curl := true
  server _ := some (200, [ascii "\x7b\"access_token\":\"t\"\x7d"])
  realloc _ _ := none

/-- A login, and one to another homeserver, whose server does not answer. -/
def carelessCalls : List (HttpEnv × MatrixCall) :=
  [(issuingEnv, .login ⟨Block.zero 32, Block.zero 64⟩ (ascii "https://a")),
    (lostEnv, .login ⟨Block.zero 32, Block.zero 64⟩ (ascii "https://b"))]

theorem carelessCalls_give_away :
    ¬ ∀ sending ∈ (carelessCalls.foldl (TokenWorld.step Sodium.transparent)
      TokenWorld.start).sendings, sending.StaysHome := by
  rw [(koeMatrixTokens_stay_iff Sodium.transparent carelessCalls (by decide)).2]
  rintro ⟨-, hcareful, -⟩
  have hcareless : ¬ TokenWorld.Careful (TokenWorld.start.step Sodium.transparent
      (issuingEnv, .login ⟨Block.zero 32, Block.zero 64⟩ (ascii "https://a")))
      (lostEnv, .login ⟨Block.zero 32, Block.zero 64⟩ (ascii "https://b")) := by
    change ¬ (_ = [] ∨ _ = _)
    decide +kernel
  exact hcareless hcareful

end KoeCore
