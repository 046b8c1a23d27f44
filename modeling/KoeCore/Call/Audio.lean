import KoeCore.Library.LastWrites
import KoeCore.Library.Runs
import KoeCore.Messaging.Builders
import Mathlib.Logic.Function.Basic

/-!
# Voice calls

`koe_audio.c` on both ends of a call. Each end encodes what is spoken with Opus and seals it, and
decodes what it receives into a ring of four frames, the jitter buffer. Opus is not part of the
repository: `Opus` are its two calls, on an encoder and a decoder that carry a state from frame to
frame.

Between the ends is a network that hands any packet to either end, so packets may be lost, repeated,
reordered and damaged; `LineCall.Unforged` says that what opens was sealed by the other end. Beside
the two records of the call a `Line` keeps what each end has spoken (`Spoken`) and two voices
(`Voice`): ends of a call without packets, keys and ring, whose decoder is given Opus frames and
gaps.

`koeAudio_refines_voices` is the result: over every run the records are what the voices say. Packets
come out as the frame that was sealed in them, whatever their header names as sender, a packet of
an empty frame and one without payload as a gap, and a damaged one does not reach the decoder. The
counters count, and the ring holds the last four frames that were decoded.
-/

set_option autoImplicit false
set_option relaxedAutoImplicit false

namespace KoeCore

open ByteWire

/-! ### The record of a call -/

/-- `KOE_AUDIO_FRAME_SAMPLES`. -/
def koeAudioFrameSamples : ℕ := 160

/-- `KOE_JITTER_BUF_FRAMES`. -/
def koeJitterBufFrames : ℕ := 4

/-- `int16_t pcm[KOE_AUDIO_FRAME_SAMPLES]`. -/
abbrev Pcm := List.Vector Int16 koeAudioFrameSamples

/-- `opus_encode` with room for 256 bytes and `opus_decode`, on states of the encoder and the
decoder. A frame to be decoded may be missing (`NULL`), and the decoder writes over a given
buffer. -/
structure Opus (E D : Type*) where
  encode : E → Pcm → Option (List UInt8) × E
  decode : D → Option (List UInt8) → Pcm → ℤ × Pcm × D
  length_encode_le : ∀ encoder pcm frame, (encode encoder pcm).1 = some frame → frame.length ≤ 256

/-- `koe_call_state_t`. -/
inductive CallState
  | idle | ringing | active | ended
deriving DecidableEq, Repr

/-- `koe_audio_ctx_t`, without `jitter_read`, which is not read. A handle is `NULL` or points to the
state behind it. -/
structure CallCtx (E D : Type*) extends AudioCtx where
  encoder : Option E
  decoder : Option D
  state : CallState
  speakerMuted : ℤ
  framesReceived : UInt64
  framesLost : UInt64
  jitterBuf : List Pcm
  jitterWrite : ℕ

section Record

variable {E D : Type*}

/-- The record that `memset(.., 0, ..)` and the copy of the key leave. -/
def CallCtx.zero (remotePk : Block 32) : CallCtx E D where
  remotePk := remotePk
  muted := 0
  framesSent := 0
  encoder := none
  decoder := none
  state := .idle
  speakerMuted := 0
  framesReceived := 0
  framesLost := 0
  jitterBuf := List.replicate koeJitterBufFrames (List.Vector.replicate koeAudioFrameSamples 0)
  jitterWrite := 0

/-- The return code and the record, given what `opus_encoder_create` and `opus_decoder_create`
return. When the decoder fails, the encoder is destroyed again. -/
def koeAudioInit (encoder : Option E) (decoder : Option D) (remotePk : Block 32) :
    ℤ × CallCtx E D :=
  match encoder, decoder with
  | none, _ => (-1, CallCtx.zero remotePk)
  | some _, none => (-1, CallCtx.zero remotePk)
  | some encoder, some decoder =>
    let call : CallCtx E D := CallCtx.zero remotePk
    (0, { call with encoder := some encoder, decoder := some decoder, state := .ringing })

def koeAudioSetMute (muted : ℤ) (call : CallCtx E D) : CallCtx E D := { call with muted := muted }

def koeAudioSetSpeakerMute (muted : ℤ) (call : CallCtx E D) : CallCtx E D :=
  { call with speakerMuted := muted }

variable (S : Sodium) (opus : Opus E D)

/-- `koe_audio_encode_frame` on the whole record: the return code, and the record and the output
packet after the call, or `none` when it follows a `NULL` encoder. A muted call leaves the encoder
alone. -/
def CallCtx.encodeFrame (env : BuildEnv) (call : CallCtx E D) (pcm : Pcm) (sess : Session)
    (pktOut : Packet) : Option (ℤ × CallCtx E D × Packet) :=
  if call.muted ≠ 0 then some (0, call, pktOut)
  else
    call.encoder.map fun encoder ↦
      let coded := opus.encode encoder pcm
      let encoded := koeAudioEncodeFrame S env call.toAudioCtx coded.1 sess pktOut
      (encoded.1, { call with toAudioCtx := encoded.2.1, encoder := some coded.2 }, encoded.2.2)

/-- The decoder conceals a gap. -/
def CallCtx.conceal (call : CallCtx E D) (pcm : Pcm) (decoder : D) : ℤ × CallCtx E D × Pcm :=
  let decoded := opus.decode decoder none pcm
  (if 0 < decoded.1 then 0 else -1,
    { call with framesLost := call.framesLost + 1, decoder := some decoded.2.2 }, decoded.2.1)

/-- A frame reaches the decoder, and the jitter buffer behind it. -/
def CallCtx.play (call : CallCtx E D) (plain : List UInt8) (pcm : Pcm) (decoder : D) :
    ℤ × CallCtx E D × Pcm :=
  let decoded := opus.decode decoder (some plain) pcm
  if decoded.1 < 0 then (-1, { call with decoder := some decoded.2.2 }, decoded.2.1)
  else
    (0, { call with
      decoder := some decoded.2.2
      framesReceived := call.framesReceived + 1
      jitterBuf := call.jitterBuf.set call.jitterWrite decoded.2.1
      jitterWrite := (call.jitterWrite + 1) % koeJitterBufFrames }, decoded.2.1)

/-- The return code, and the record and the output buffer after the call, or `none` when it follows
a `NULL` decoder. `alloc` is the answer of `malloc`. -/
def koeAudioDecodeFrame (alloc : Bool) (call : CallCtx E D) (pkt : Packet) (sess : Session)
    (pcm : Pcm) : Option (ℤ × CallCtx E D × Pcm) :=
  if pkt.payload.isNone ∨ pkt.header.length.toNat ≤ koeTagLen then
    call.decoder.map (call.conceal opus pcm)
  else if !alloc then some (-1, call, pcm)
  else
    match koeDecrypt S pkt.payloadBytes pkt.header.nonce sess.rxKey with
    | none => some (-1, { call with framesLost := call.framesLost + 1 }, pcm)
    | some plain => call.decoder.map (call.play opus plain pcm)

end Record

/-! ### Voices -/

/-- What an end hears: a frame, a gap that Opus conceals, a packet that does not open, or nothing,
for want of memory. -/
inductive Sound
  | frame (bytes : List UInt8)
  | gap
  | noise
  | nothing
deriving DecidableEq

/-- An end of a call without packets: the states of Opus, the frames it has said and those it has
heard, the oldest first, and the number of those it has missed. -/
structure Voice (E D : Type*) where
  encoder : E
  decoder : D
  muted : ℤ
  said : List (List UInt8)
  heard : List Pcm
  lost : ℕ

section Voice

variable {E D : Type*} (opus : Opus E D)

/-- The encoder moves on even if there is no memory for its frame. -/
def Voice.speak (alloc : Bool) (pcm : Pcm) (voice : Voice E D) : ℤ × Voice E D :=
  if voice.muted ≠ 0 then (0, voice)
  else
    let coded := opus.encode voice.encoder pcm
    match coded.1 with
    | none => (-1, { voice with encoder := coded.2 })
    | some frame =>
      if alloc then (0, { voice with encoder := coded.2, said := voice.said ++ [frame] })
      else (-1, { voice with encoder := coded.2 })

def Voice.hear (pcm : Pcm) (voice : Voice E D) : Sound → ℤ × Voice E D
  | .frame bytes =>
    let decoded := opus.decode voice.decoder (some bytes) pcm
    if decoded.1 < 0 then (-1, { voice with decoder := decoded.2.2 })
    else (0, { voice with decoder := decoded.2.2, heard := voice.heard ++ [decoded.2.1] })
  | .gap =>
    let decoded := opus.decode voice.decoder none pcm
    (if 0 < decoded.1 then 0 else -1,
      { voice with decoder := decoded.2.2, lost := voice.lost + 1 })
  | .noise => (-1, { voice with lost := voice.lost + 1 })
  | .nothing => (-1, voice)

/-- The record is that of the voice: the handles point to its Opus states, the counters count, and
the ring holds the last frames that it heard. -/
structure CallCtx.Voices (call : CallCtx E D) (voice : Voice E D) : Prop where
  encoder : call.encoder = some voice.encoder
  decoder : call.decoder = some voice.decoder
  muted : call.muted = voice.muted
  sent : call.framesSent = UInt64.ofNat voice.said.length
  received : call.framesReceived = UInt64.ofNat voice.heard.length
  lost : call.framesLost = UInt64.ofNat voice.lost
  ring : LastWrites.Holds koeJitterBufFrames call.jitterBuf voice.heard
  write : call.jitterWrite = voice.heard.length % koeJitterBufFrames

end Voice

/-! ### The line between two ends -/

/-- A packet that an end has sealed, with the frame in it. -/
structure Spoken where
  frame : List UInt8
  pkt : Packet

/-- The two ends of a call, what each has spoken, the oldest first, and their voices. -/
structure Line (E D : Type*) where
  ends : Bool → CallCtx E D
  spoken : Bool → List Spoken
  voices : Bool → Voice E D

/-- A call on one end, with what it takes from its environment. -/
inductive LineCall
  | speak (who : Bool) (env : BuildEnv) (pcm : Pcm) (pktOut : Packet)
  | mute (who : Bool) (muted : ℤ)
  | speakerMute (who : Bool) (muted : ℤ)
  | hear (who : Bool) (alloc : Bool) (pkt : Packet) (pcm : Pcm)

/-- The packet has the nonce and the payload of the spoken one. -/
def Spoken.Carries (spoken : Spoken) (pkt : Packet) : Prop :=
  spoken.pkt.header.nonce = pkt.header.nonce ∧ spoken.pkt.payload = some pkt.payloadBytes

instance Spoken.decidableCarries (spoken : Spoken) (pkt : Packet) :
    Decidable (spoken.Carries pkt) :=
  inferInstanceAs (Decidable (_ ∧ _))

/-- What an end hears of a packet, given what the other end has spoken. -/
def Packet.sound (alloc : Bool) (spoken : List Spoken) (pkt : Packet) : Sound :=
  if pkt.payload.isNone ∨ pkt.header.length.toNat ≤ koeTagLen then .gap
  else if !alloc then .nothing
  else
    match spoken.find? fun spoken ↦ spoken.Carries pkt with
    | none => .noise
    | some spoken => .frame spoken.frame

section Line

variable {E D : Type*}

/-- A call that both ends have taken up. -/
def Line.start (setup : Bool → E × D) (pk : Bool → Block 32) : Line E D where
  ends who := (koeAudioInit (some (setup who).1) (some (setup who).2) (pk !who)).2
  spoken _ := []
  voices who := ⟨(setup who).1, (setup who).2, 0, [], [], 0⟩

variable (S : Sodium) (opus : Opus E D) (sess : Bool → Session)

/-- What an encoding adds to the packets of an end: the built packet, if one was built. -/
def newlySpoken (call : CallCtx E D) (env : BuildEnv) (pcm : Pcm) (sess : Session)
    (pktOut : Packet) : List Spoken :=
  if call.muted ≠ 0 then []
  else
    match call.encoder.bind fun encoder ↦ (opus.encode encoder pcm).1,
      call.encodeFrame S opus env pcm sess pktOut with
    | some frame, some (0, _, pkt) => [⟨frame, pkt⟩]
    | _, _ => []

/-- The end that makes the call. -/
def LineCall.who : LineCall → Bool
  | speak who _ _ _ => who
  | mute who _ => who
  | speakerMute who _ => who
  | hear who _ _ _ => who

/-- The return code and the record of the end after a call, or `none` when it follows a `NULL`
pointer. -/
def LineCall.act (line : Line E D) : LineCall → Option (ℤ × CallCtx E D)
  | speak who env pcm pktOut =>
    ((line.ends who).encodeFrame S opus env pcm (sess who) pktOut).map fun after ↦
      (after.1, after.2.1)
  | mute who muted => some (0, koeAudioSetMute muted (line.ends who))
  | speakerMute who muted => some (0, koeAudioSetSpeakerMute muted (line.ends who))
  | hear who alloc pkt pcm =>
    (koeAudioDecodeFrame S opus alloc (line.ends who) pkt (sess who) pcm).map fun after ↦
      (after.1, after.2.1)

/-- The return code and the voice of the end after a call. -/
def LineCall.voice (line : Line E D) : LineCall → ℤ × Voice E D
  | speak who env pcm _ => (line.voices who).speak opus env.alloc pcm
  | mute who muted => (0, { line.voices who with muted := muted })
  | speakerMute who _ => (0, line.voices who)
  | hear who alloc pkt pcm =>
    (line.voices who).hear opus pcm (pkt.sound alloc (line.spoken !who))

/-- What a call adds to the packets of its end. -/
def LineCall.adds (line : Line E D) : LineCall → List Spoken
  | speak who env pcm pktOut => newlySpoken S opus (line.ends who) env pcm (sess who) pktOut
  | _ => []

def LineCall.step (line : Line E D) (call : LineCall) : Line E D where
  ends := Function.update line.ends call.who
    (((call.act S opus sess line).map Prod.snd).getD (line.ends call.who))
  spoken := Function.update line.spoken call.who
    (line.spoken call.who ++ call.adds S opus sess line)
  voices := Function.update line.voices call.who (call.voice opus line).2

/-- What is heard and opens, the other end has sealed. -/
def LineCall.Unforged (line : Line E D) : LineCall → Prop
  | hear who _ pkt _ =>
    (koeDecrypt S pkt.payloadBytes pkt.header.nonce (sess who).rxKey).isSome = true →
      ∃ spoken ∈ line.spoken !who, spoken.Carries pkt
  | _ => True

/-- The call returns what it returns for the voice, and a packet of the other end is heard as the
frame in it, or as a gap if that is empty. -/
def LineCall.Exact (line : Line E D) (call : LineCall) : Prop :=
  (call.act S opus sess line).map Prod.fst = some (call.voice opus line).1 ∧
    match call with
    | hear who alloc pkt _ =>
      ∀ spoken ∈ line.spoken !who, spoken.pkt = pkt → alloc = true →
        pkt.sound alloc (line.spoken !who) =
          if spoken.frame = [] then .gap else .frame spoken.frame
    | _ => True

end Line

/-! ### One call -/

section Steps

variable {E D : Type*} {S : Sodium}

/-- The packet holds its frame under the key, with the length in the header. -/
def Spoken.Sealed (S : Sodium) (key : Block 32) (spoken : Spoken) : Prop :=
  ∃ ct, koeEncrypt S spoken.frame spoken.pkt.header.nonce key = some ct ∧
    spoken.pkt.payload = some ct ∧
    spoken.pkt.header.length.toNat = spoken.frame.length + koeTagLen

/-- An encoding follows the voice. Assumes: a correct AEAD, and the record of the voice. -/
theorem CallCtx.Voices.speak (haead : S.Aead) (opus : Opus E D) {call : CallCtx E D}
    {voice : Voice E D} (hvoices : call.Voices voice) (env : BuildEnv) (pcm : Pcm)
    (sess : Session) (pktOut : Packet) :
    ∃ after pkt, call.encodeFrame S opus env pcm sess pktOut =
        some ((voice.speak opus env.alloc pcm).1, after, pkt) ∧
      after.Voices (voice.speak opus env.alloc pcm).2 ∧
      (voice.speak opus env.alloc pcm).2.said = voice.said ++
        (newlySpoken S opus call env pcm sess pktOut).map Spoken.frame ∧
      ∀ spoken ∈ newlySpoken S opus call env pcm sess pktOut, spoken.Sealed S sess.txKey := by
  by_cases hmuted : voice.muted ≠ 0
  · have hcall : call.muted ≠ 0 := by rwa [hvoices.muted]
    refine ⟨call, pktOut, ?_, ?_, ?_, ?_⟩
    · rw [encodeFrame, if_pos hcall, Voice.speak, if_pos hmuted]
    · rw [Voice.speak, if_pos hmuted]
      exact hvoices
    · rw [Voice.speak, if_pos hmuted, newlySpoken, if_pos hcall, List.map_nil, List.append_nil]
    · rw [newlySpoken, if_pos hcall]
      exact fun spoken hspoken ↦ absurd hspoken List.not_mem_nil
  · have hzero : call.muted = 0 := by rwa [hvoices.muted, ← not_ne_iff]
    rcases hcoded : opus.encode voice.encoder pcm with ⟨coded, encoder⟩
    by_cases hbuilds : ∃ frame, coded = some frame ∧ env.alloc = true
    · obtain ⟨frame, rfl, halloc⟩ := hbuilds
      obtain ⟨ct, hct, hbuilt⟩ := buildSealed_eq S env .audio PacketFlag.encrypted.mask
        sess.txKey call.remotePk frame sess pktOut haead halloc
      have hencode : call.encodeFrame S opus env pcm sess pktOut =
          some (0, { call with framesSent := call.framesSent + 1, encoder := some encoder },
            ⟨sealedHeader .audio PacketFlag.encrypted.mask sess.txKey call.remotePk env.nonce
              frame.length, some ct⟩) := by
        simp [encodeFrame, hzero, hvoices.encoder, hcoded, koeAudioEncodeFrame, hbuilt]
      have hspeak : voice.speak opus env.alloc pcm =
          (0, { voice with encoder := encoder, said := voice.said ++ [frame] }) := by
        simp [Voice.speak, hmuted, hcoded, halloc]
      have hone : newlySpoken S opus call env pcm sess pktOut =
          [⟨frame, sealedHeader .audio PacketFlag.encrypted.mask sess.txKey call.remotePk
            env.nonce frame.length, some ct⟩] := by
        simp [newlySpoken, hzero, hvoices.encoder, hcoded, hencode]
      have hsent : call.framesSent + 1 = UInt64.ofNat (voice.said ++ [frame]).length := by
        rw [hvoices.sent, List.length_append, List.length_singleton, UInt64.ofNat_add]
        rfl
      rw [hencode, hspeak, hone]
      refine ⟨_, _, rfl, { hvoices with encoder := rfl, sent := hsent }, rfl, ?_⟩
      intro spoken hspoken
      obtain rfl := List.mem_singleton.mp hspoken
      refine ⟨ct, hct, rfl, ?_⟩
      -- A frame of at most 256 bytes is far from the range of the length field.
      have hframe : frame.length ≤ 256 :=
        opus.length_encode_le voice.encoder pcm frame (by rw [hcoded])
      change (UInt32.ofNat (frame.length + koeTagLen)).toNat = frame.length + koeTagLen
      rw [UInt32.toNat_ofNat']
      exact Nat.mod_eq_of_lt (by simp only [koeTagLen]; omega)
    · have hfailed : koeAudioEncodeFrame S env call.toAudioCtx coded sess pktOut =
          (-1, call.toAudioCtx, pktOut) := by
        rcases coded with _ | frame
        · simp [koeAudioEncodeFrame, hzero]
        · have halloc : env.alloc = false := by simpa using hbuilds
          simp [koeAudioEncodeFrame, hzero, buildSealed, halloc]
      have hencode : call.encodeFrame S opus env pcm sess pktOut =
          some (-1, { call with encoder := some encoder }, pktOut) := by
        simp [encodeFrame, hzero, hvoices.encoder, hcoded, hfailed]
      have hspeak : voice.speak opus env.alloc pcm = (-1, { voice with encoder := encoder }) := by
        rcases coded with _ | frame
        · simp [Voice.speak, hmuted, hcoded]
        · have halloc : env.alloc = false := by simpa using hbuilds
          simp [Voice.speak, hmuted, hcoded, halloc]
      have hnone : newlySpoken S opus call env pcm sess pktOut = [] := by
        cases coded <;> simp [newlySpoken, hzero, hvoices.encoder, hcoded, hencode]
      rw [hencode, hspeak, hnone]
      exact ⟨_, _, rfl, { hvoices with encoder := rfl }, (List.append_nil _).symm,
        fun spoken hspoken ↦ absurd hspoken List.not_mem_nil⟩

/-- What the key opens of a packet is the frame of the spoken packet that it carries. Assumes: a
correct AEAD, and a spoken packet under the key. -/
theorem Spoken.Sealed.opens (haead : S.Aead) {key : Block 32} {spoken : Spoken}
    (hsealed : spoken.Sealed S key) {pkt : Packet} (hcarries : spoken.Carries pkt) :
    koeDecrypt S pkt.payloadBytes pkt.header.nonce key = some spoken.frame := by
  obtain ⟨ct, hct, hpayload, -⟩ := hsealed
  obtain ⟨hnonce, hbytes⟩ := hcarries
  have heq : ct = pkt.payloadBytes := Option.some.inj (hpayload.symm.trans hbytes)
  rw [← heq, ← hnonce]
  exact koeDecrypt_koeEncrypt haead hct

/-- Assumes: a payload that is longer than a tag. -/
theorem Packet.sound_of_find {pkt : Packet}
    (hgap : ¬ (pkt.payload.isNone ∨ pkt.header.length.toNat ≤ koeTagLen)) (spoken : List Spoken) :
    pkt.sound true spoken =
      match spoken.find? fun spoken ↦ spoken.Carries pkt with
      | none => .noise
      | some spoken => .frame spoken.frame := by
  rw [Packet.sound, if_neg hgap]
  rfl

theorem Voice.said_hear (opus : Opus E D) (voice : Voice E D) (pcm : Pcm) (sound : Sound) :
    (voice.hear opus pcm sound).2.said = voice.said := by
  cases sound with
  | frame bytes =>
    rw [Voice.hear]
    split_ifs <;> rfl
  | _ => rfl

/-- A decoding follows the voice. Assumes: a correct AEAD, the record of the voice, packets under
the receiving key, and a packet that does not open unless one of them has its nonce and payload. -/
theorem CallCtx.Voices.hear (haead : S.Aead) (opus : Opus E D) {call : CallCtx E D}
    {voice : Voice E D} (hvoices : call.Voices voice) {sess : Session} {spoken : List Spoken}
    (hsealed : ∀ other ∈ spoken, other.Sealed S sess.rxKey) {pkt : Packet}
    (hunforged : (koeDecrypt S pkt.payloadBytes pkt.header.nonce sess.rxKey).isSome = true →
      ∃ other ∈ spoken, other.Carries pkt) (alloc : Bool) (pcm : Pcm) :
    ∃ after buf, koeAudioDecodeFrame S opus alloc call pkt sess pcm =
        some ((voice.hear opus pcm (pkt.sound alloc spoken)).1, after, buf) ∧
      after.Voices (voice.hear opus pcm (pkt.sound alloc spoken)).2 := by
  have hlost : call.framesLost + 1 = UInt64.ofNat (voice.lost + 1) := by
    rw [hvoices.lost, UInt64.ofNat_add]
    rfl
  by_cases hgap : pkt.payload.isNone ∨ pkt.header.length.toNat ≤ koeTagLen
  · have hsound : pkt.sound alloc spoken = .gap := by rw [Packet.sound, if_pos hgap]
    rw [hsound, koeAudioDecodeFrame, if_pos hgap, hvoices.decoder]
    exact ⟨_, _, rfl, { hvoices with decoder := rfl, lost := hlost }⟩
  · rw [koeAudioDecodeFrame, if_neg hgap]
    rcases alloc
    · have hsound : pkt.sound false spoken = .nothing := by
        rw [Packet.sound, if_neg hgap]
        rfl
      rw [hsound]
      exact ⟨_, _, rfl, hvoices⟩
    · simp only [Bool.not_true, Bool.false_eq_true, if_false]
      rcases hfind : spoken.find? fun other ↦ other.Carries pkt with _ | other
      · -- Nothing that was spoken is in the packet, so it does not open.
        have hsound : pkt.sound true spoken = .noise := by rw [Packet.sound_of_find hgap, hfind]
        have hnone : koeDecrypt S pkt.payloadBytes pkt.header.nonce sess.rxKey = none := by
          by_contra hsome
          obtain ⟨other, hother, hcarries⟩ := hunforged (Option.isSome_iff_ne_none.mpr hsome)
          have hnot := List.find?_eq_none.mp hfind other hother
          exact hnot (decide_eq_true hcarries)
        rw [hsound, hnone]
        exact ⟨_, _, rfl, { hvoices with lost := hlost }⟩
      · have hsound : pkt.sound true spoken = .frame other.frame := by
          rw [Packet.sound_of_find hgap, hfind]
        have hcarries : other.Carries pkt := by simpa using List.find?_some hfind
        have hopens := (hsealed other (List.mem_of_find?_eq_some hfind)).opens haead hcarries
        rw [hsound, hopens, hvoices.decoder]
        simp only [Option.map_some, CallCtx.play, Voice.hear]
        split_ifs with hnegative
        · exact ⟨_, _, rfl, { hvoices with decoder := rfl }⟩
        · have hring := hvoices.ring.write (by decide)
            (opus.decode voice.decoder (some other.frame) pcm).2.1
          refine ⟨_, _, rfl,
            { hvoices with decoder := rfl, received := ?_, ring := ?_, write := ?_ }⟩
          · rw [List.length_append, List.length_singleton, UInt64.ofNat_add, hvoices.received]
            rfl
          · rw [hvoices.write]
            exact hring
          · rw [hvoices.write]
            exact LastWrites.succ_mod koeJitterBufFrames voice.heard _

/-- How a packet of the other end is heard. Assumes: a correct AEAD, and packets under one key. -/
theorem Packet.sound_of_spoken (haead : S.Aead) {key : Block 32} {spoken : List Spoken}
    (hsealed : ∀ other ∈ spoken, other.Sealed S key) {own : Spoken} (hown : own ∈ spoken) :
    own.pkt.sound true spoken = if own.frame = [] then .gap else .frame own.frame := by
  obtain ⟨ct, hct, hpayload, hlength⟩ := hsealed own hown
  have hbytes : own.pkt.payloadBytes = ct := by
    refine Packet.payloadBytes_eq hpayload ?_
    rw [hlength, haead.length_sealed hct]
    rfl
  have hcarries : own.Carries own.pkt := ⟨rfl, by rw [hbytes, hpayload]⟩
  by_cases hempty : own.frame = []
  · have hgap : own.pkt.payload.isNone ∨ own.pkt.header.length.toNat ≤ koeTagLen := by
      rw [hlength, hempty]
      exact Or.inr (Nat.le_of_eq (Nat.zero_add koeTagLen))
    rw [Packet.sound, if_pos hgap, if_pos hempty]
  · have hgap : ¬ (own.pkt.payload.isNone ∨ own.pkt.header.length.toNat ≤ koeTagLen) := by
      have hpos := List.length_pos_iff.mpr hempty
      rw [hlength, hpayload]
      simp only [Option.isNone_some, Bool.false_eq_true, false_or]
      omega
    rcases hfind : spoken.find? fun other ↦ other.Carries own.pkt with _ | other
    · exact absurd (decide_eq_true hcarries) (List.find?_eq_none.mp hfind own hown)
    · -- Another packet with this nonce and payload holds the same frame.
      have hother : other.Carries own.pkt := by simpa using List.find?_some hfind
      have hopens := (hsealed other (List.mem_of_find?_eq_some hfind)).opens haead hother
      rw [(hsealed own hown).opens haead hcarries] at hopens
      have hsound : own.pkt.sound true spoken = .frame other.frame := by
        rw [Packet.sound_of_find hgap, hfind]
      rw [hsound, if_neg hempty, Option.some.inj hopens]

end Steps

/-! ### Whole calls -/

section Calls

variable {E D : Type*} {S : Sodium} {opus : Opus E D} {sess : Bool → Session} {line : Line E D}

/-- The records are those of the voices, what was spoken is what the voices said, and each packet
holds its frame under the sending key. -/
structure Line.Faithful (S : Sodium) (sess : Bool → Session) (line : Line E D) : Prop where
  voices : ∀ who, (line.ends who).Voices (line.voices who)
  said : ∀ who, (line.spoken who).map Spoken.frame = (line.voices who).said
  sealed : ∀ who, ∀ spoken ∈ line.spoken who, spoken.Sealed S (sess who).txKey

theorem Line.faithful_start (setup : Bool → E × D) (pk : Bool → Block 32) :
    (Line.start setup pk).Faithful S sess where
  voices _ := ⟨rfl, rfl, rfl, rfl, rfl, rfl, LastWrites.holds_nil rfl, rfl⟩
  said _ := rfl
  sealed _ _ hspoken := absurd hspoken List.not_mem_nil

/-- A call of one end changes the end that makes it. Assumes: a faithful line, and for this end the
record of the voice and sealed packets with what the voice has said. -/
theorem Line.Faithful.step (hfaithful : line.Faithful S sess) {call : LineCall}
    {after : CallCtx E D}
    (hact : call.act S opus sess line = some ((call.voice opus line).1, after))
    (hafter : after.Voices (call.voice opus line).2)
    (hsaid : (call.voice opus line).2.said =
      (line.voices call.who).said ++ (call.adds S opus sess line).map Spoken.frame)
    (hsealed : ∀ spoken ∈ call.adds S opus sess line, spoken.Sealed S (sess call.who).txKey) :
    (call.step S opus sess line).Faithful S sess := by
  constructor
  · intro who
    by_cases hwho : who = call.who
    · subst hwho
      simpa [LineCall.step, hact] using hafter
    · simpa [LineCall.step, hwho] using hfaithful.voices who
  · intro who
    by_cases hwho : who = call.who
    · subst hwho
      simp [LineCall.step, hsaid, hfaithful.said]
    · simpa [LineCall.step, hwho] using hfaithful.said who
  · intro who spoken hspoken
    by_cases hwho : who = call.who
    · subst hwho
      simp only [LineCall.step, Function.update_self, List.mem_append] at hspoken
      exact hspoken.elim (hfaithful.sealed _ spoken) (hsealed spoken)
    · simp only [LineCall.step, Function.update_of_ne hwho] at hspoken
      exact hfaithful.sealed who spoken hspoken

/-- Assumes: a correct AEAD, mirrored sessions, a faithful line, and nothing forged. -/
theorem Line.Faithful.exact (haead : S.Aead) (hmirrored : (sess false).Mirrored (sess true))
    (hfaithful : line.Faithful S sess) {call : LineCall} (hunforged : call.Unforged S sess line) :
    call.Exact S opus sess line ∧ (call.step S opus sess line).Faithful S sess := by
  have hkeys (who : Bool) : (sess !who).txKey = (sess who).rxKey := by
    cases who
    · exact hmirrored.2.symm
    · exact hmirrored.1
  cases call with
  | speak who env pcm pktOut =>
    obtain ⟨after, pkt, hencode, hafter, hsaid, hsealed⟩ :=
      (hfaithful.voices who).speak haead opus env pcm (sess who) pktOut
    have hact : (LineCall.speak who env pcm pktOut).act S opus sess line =
        some (((LineCall.speak who env pcm pktOut).voice opus line).1, after) := by
      simp only [LineCall.act, hencode, Option.map_some, LineCall.voice]
    refine ⟨⟨?_, trivial⟩, hfaithful.step hact hafter hsaid hsealed⟩
    rw [hact]
    rfl
  | mute who muted =>
    refine ⟨⟨rfl, trivial⟩, hfaithful.step rfl ?_ (List.append_nil _).symm ?_⟩
    · exact { hfaithful.voices who with muted := rfl }
    · exact fun spoken hspoken ↦ absurd hspoken List.not_mem_nil
  | speakerMute who muted =>
    refine ⟨⟨rfl, trivial⟩, hfaithful.step rfl ?_ (List.append_nil _).symm ?_⟩
    · exact { hfaithful.voices who with }
    · exact fun spoken hspoken ↦ absurd hspoken List.not_mem_nil
  | hear who alloc pkt pcm =>
    have hsealed : ∀ other ∈ line.spoken !who, other.Sealed S (sess who).rxKey := by
      rw [← hkeys who]
      exact hfaithful.sealed !who
    obtain ⟨after, buf, hdecode, hafter⟩ :=
      (hfaithful.voices who).hear haead opus hsealed hunforged alloc pcm
    have hact : (LineCall.hear who alloc pkt pcm).act S opus sess line =
        some (((LineCall.hear who alloc pkt pcm).voice opus line).1, after) := by
      simp only [LineCall.act, hdecode, Option.map_some, LineCall.voice]
    refine ⟨⟨?_, ?_⟩, hfaithful.step hact hafter ?_ ?_⟩
    · rw [hact]
      rfl
    · rintro own hown rfl rfl
      exact Packet.sound_of_spoken haead hsealed hown
    · change ((line.voices who).hear opus pcm _).2.said = (line.voices who).said ++ []
      rw [Voice.said_hear, List.append_nil]
    · exact fun spoken hspoken ↦ absurd hspoken List.not_mem_nil

/-- A call over an open network is a call of two voices. Assumes: a correct AEAD, mirrored sessions,
and a run in which nothing forged is heard. Every call returns what it returns for the voice, every
packet of the other end is heard as its frame or, if that is empty, as a gap; and after the run both
records are those of the voices. -/
theorem koeAudio_refines_voices (haead : S.Aead) (opus : Opus E D)
    (hmirrored : (sess false).Mirrored (sess true)) (setup : Bool → E × D) (pk : Bool → Block 32)
    (calls : List LineCall)
    (hunforged : Runs.AllSteps (fun line call ↦ call.step S opus sess line)
      (fun line call ↦ call.Unforged S sess line) (Line.start setup pk) calls) :
    Runs.AllSteps (fun line call ↦ call.step S opus sess line)
        (fun line call ↦ call.Exact S opus sess line) (Line.start setup pk) calls ∧
      (calls.foldl (fun line call ↦ call.step S opus sess line)
        (Line.start setup pk)).Faithful S sess := by
  have hstart : (Line.start setup pk).Faithful S sess := Line.faithful_start setup pk
  constructor
  · refine Runs.AllSteps.imp_of_invariant ?_ calls hstart hunforged
    intro line call hfaithful hcall
    exact hfaithful.exact haead hmirrored hcall
  · rw [← List.append_nil calls] at hunforged
    refine Runs.AllSteps.invariant ?_ calls hunforged hstart
    intro line call hfaithful hcall
    exact (hfaithful.exact haead hmirrored hcall).2

end Calls

/-- A stand-in for Opus that numbers its frames. -/
def toyOpus : Opus ℕ ℕ where
  encode count _ := (some [UInt8.ofNat count], count + 1)
  decode count _ pcm := (koeAudioFrameSamples, pcm, count + 1)
  length_encode_le encoder pcm frame hframe := by
    rw [← Option.some.inj hframe]
    exact Nat.succ_le_succ (Nat.zero_le 255)

def toySessions (who : Bool) : Session :=
  if who then ⟨List.Vector.replicate 32 2, List.Vector.replicate 32 1⟩
  else ⟨List.Vector.replicate 32 1, List.Vector.replicate 32 2⟩

/-- The packet of a frame of the first end. -/
def toyPacket (count : ℕ) : Packet :=
  (buildSealed Sodium.transparent ⟨Block.zero 24, true⟩ .audio PacketFlag.encrypted.mask
    (toySessions false).txKey (Block.zero 32) [UInt8.ofNat count] (toySessions false)
    Packet.zero).2

/-- Two frames that arrive in the other order, the second of them once more, and a gap. -/
def toyCalls (pcm : Pcm) : List LineCall :=
  [.speak false ⟨Block.zero 24, true⟩ pcm Packet.zero,
    .speak false ⟨Block.zero 24, true⟩ pcm Packet.zero,
    .hear true true (toyPacket 1) pcm, .hear true true (toyPacket 0) pcm,
    .hear true true (toyPacket 1) pcm, .hear true true Packet.zero pcm]

theorem toyCalls_refine :
    let step := fun (line : Line ℕ ℕ) call ↦
      LineCall.step Sodium.transparent toyOpus toySessions line call
    let start : Line ℕ ℕ := Line.start (fun _ ↦ (0, 0)) fun _ ↦ Block.zero 32
    let calls := toyCalls (List.Vector.replicate koeAudioFrameSamples 0)
    Runs.AllSteps step (fun line call ↦ call.Exact Sodium.transparent toyOpus toySessions line)
        start calls ∧
      (calls.foldl step start).Faithful Sodium.transparent toySessions := by
  refine koeAudio_refines_voices Sodium.transparent_aead toyOpus ⟨rfl, rfl⟩ _ _ _ ?_
  refine ⟨trivial, trivial, ?_, ?_, ?_, ?_, trivial⟩
  all_goals
    change _ → _
    decide +kernel

end KoeCore
