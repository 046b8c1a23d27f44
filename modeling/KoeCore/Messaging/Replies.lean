import KoeCore.Account.Mirror
import KoeCore.Messaging.Transfer

/-!
# Who a file transfer is between

The receiving side of an offer in `koe_media.c`, and the keys in the headers of all packets of a
transfer. The offer arrives as it was built (`koeMediaOfferParse_built`), and its answers go to
the key that the offer names as its sender. `koe_media_offer_build` is not told who the sender is,
and leaves this key at zero. `koeMediaAddressed_iff` draws the conclusion: the packets of a transfer
carry the key of the sender exactly when this key is all zero.
-/

set_option autoImplicit false
set_option relaxedAutoImplicit false

namespace KoeCore

open ByteWire

/-! ### Receiving an offer -/

/-- The record that lies in memory as these bytes. -/
def MediaOffer.ofBytes (bytes : List UInt8) : MediaOffer where
  transferId := readAt 16 0 bytes
  filename := readAt 256 16 bytes
  mimeType := readAt 128 272 bytes
  fileSize := UInt64.ofNat (ofLeBytes (readAt 8 400 bytes).toList)
  chunkCount := UInt32.ofNat (ofLeBytes (readAt 4 408 bytes).toList)
  sha256 := readAt 32 412 bytes
  senderPk := readAt 32 444 bytes
  recipientPk := readAt 32 476 bytes
  offeredAt := readInt 8 512 bytes

/-- The return code, and the offer after the call. `alloc` is whether `malloc` succeeds. -/
def koeMediaOfferParse (S : Sodium) (alloc : Bool) (pkt : Packet) (sess : Session)
    (offerOut : MediaOffer) : ℤ × MediaOffer :=
  if pkt.payload.isNone ∨ pkt.header.length.toNat ≤ koeTagLen then (-1, offerOut)
  else
    let plainLen := pkt.header.length.toNat - koeTagLen
    if plainLen < 520 then (-1, offerOut)
    else if !alloc then (-1, offerOut)
    else
      match koeDecrypt S pkt.payloadBytes pkt.header.nonce sess.rxKey with
      | none => (-1, offerOut)
      | some plain => (0, MediaOffer.ofBytes plain)

/-- Assumes: a time of 64 bits. -/
theorem MediaOffer.ofBytes_bytes {offer : MediaOffer} (htime : FitsTime offer.offeredAt) :
    MediaOffer.ofBytes offer.bytes = offer := by
  have hid : readAt 16 0 offer.bytes = offer.transferId :=
    readAt_of_eq [] _ (by simp only [MediaOffer.bytes, List.append_assoc]; rfl) rfl
  have hname : readAt 256 16 offer.bytes = offer.filename :=
    readAt_of_eq offer.transferId.toList _
      (by simp only [MediaOffer.bytes, List.append_assoc]; rfl) (by simp)
  have hmime : readAt 128 272 offer.bytes = offer.mimeType :=
    readAt_of_eq (offer.transferId.toList ++ offer.filename.toList) _
      (by simp only [MediaOffer.bytes, List.append_assoc]; rfl) (by simp)
  -- The numbers lie behind the three texts, and the digest and the keys behind the numbers.
  let texts := offer.transferId.toList ++ offer.filename.toList ++ offer.mimeType.toList
  have hsize : readAt 8 400 offer.bytes = leBytes 8 offer.fileSize.toNat :=
    readAt_of_eq texts _
      (by simp only [texts, MediaOffer.bytes, List.append_assoc]; rfl) (by simp [texts])
  have hcount : readAt 4 408 offer.bytes = leBytes 4 offer.chunkCount.toNat :=
    readAt_of_eq (texts ++ (leBytes 8 offer.fileSize.toNat).toList) _
      (by simp only [texts, MediaOffer.bytes, List.append_assoc]; rfl) (by simp [texts])
  let numbers := texts ++ (leBytes 8 offer.fileSize.toNat).toList ++
    (leBytes 4 offer.chunkCount.toNat).toList
  have hdigest : readAt 32 412 offer.bytes = offer.sha256 :=
    readAt_of_eq numbers _
      (by simp only [numbers, texts, MediaOffer.bytes, List.append_assoc]; rfl)
      (by simp [numbers, texts])
  have hsender : readAt 32 444 offer.bytes = offer.senderPk :=
    readAt_of_eq (numbers ++ offer.sha256.toList) _
      (by simp only [numbers, texts, MediaOffer.bytes, List.append_assoc]; rfl)
      (by simp [numbers, texts])
  have hrecipient : readAt 32 476 offer.bytes = offer.recipientPk :=
    readAt_of_eq (numbers ++ offer.sha256.toList ++ offer.senderPk.toList) _
      (by simp only [numbers, texts, MediaOffer.bytes, List.append_assoc]; rfl)
      (by simp [numbers, texts])
  have htimes : readInt 8 512 offer.bytes = offer.offeredAt :=
    readInt_of_eq htime.1 htime.2 <|
      readAt_of_eq (numbers ++ offer.sha256.toList ++ offer.senderPk.toList ++
        offer.recipientPk.toList ++ (Block.zero 4).toList) _
        (by
          rw [List.append_nil]
          simp only [numbers, texts, MediaOffer.bytes, List.append_assoc]
          rfl)
        (by simp [numbers, texts])
  have hfileSize := offer.fileSize.toNat_lt
  have hchunkCount := offer.chunkCount.toNat_lt
  rw [MediaOffer.ofBytes, hid, hname, hmime, hsize, hcount, hdigest, hsender, hrecipient, htimes,
    ofLeBytes_leBytes, ofLeBytes_leBytes, Nat.mod_eq_of_lt (by omega),
    Nat.mod_eq_of_lt (by omega), UInt64.ofNat_toNat, UInt32.ofNat_toNat]

section Addressed

variable {S : Sodium} {buildEnv : BuildEnv} {offerEnv : OfferEnv} {filePath : List UInt8}
  {recipientPk : Block 32} {sender receiver : Session} {offerOut offer : MediaOffer}
  {pktOut offerPkt : Packet}

/-- What a successful call has built. Assumes: an offer that was built. -/
theorem koeMediaOfferBuild_built
    (hoffer : koeMediaOfferBuild S buildEnv offerEnv filePath recipientPk sender offerOut pktOut =
      (0, offer, offerPkt)) :
    offer.senderPk = Block.zero 32 ∧ offer.recipientPk = recipientPk ∧
      offer.offeredAt = offerEnv.now ∧
      ∃ ct, koeEncrypt S offer.bytes buildEnv.nonce sender.txKey = some ct ∧
        offerPkt = ⟨sealedHeader .mediaOffer PacketFlag.encrypted.mask (Block.zero 32) recipientPk
          buildEnv.nonce offer.bytes.length, some ct⟩ := by
  have hrc : 0 ≤ (koeMediaOfferBuild S buildEnv offerEnv filePath recipientPk sender offerOut
      pktOut).1 := by
    rw [hoffer]
  obtain ⟨stSize, contents, hreadable⟩ := koeMediaOfferBuild_inv hrc
  rw [koeMediaOfferBuild_eq hreadable] at hoffer
  have hrecord : hashedOffer S offerEnv stSize contents filePath recipientPk = offer :=
    congrArg (fun result ↦ result.2.1) hoffer
  obtain ⟨hsender, hrecipient, hnow⟩ : offer.senderPk = Block.zero 32 ∧
      offer.recipientPk = recipientPk ∧ offer.offeredAt = offerEnv.now := by
    rw [← hrecord]
    exact ⟨rfl, rfl, rfl⟩
  refine ⟨hsender, hrecipient, hnow, ?_⟩
  simp only [hrecord, hsender] at hoffer
  rcases buildSealed_cases S buildEnv .mediaOffer PacketFlag.encrypted.mask (Block.zero 32)
      recipientPk offer.bytes sender pktOut with hfailed | ⟨ct, hct, hbuilt⟩
  · rw [hfailed] at hoffer
    have hfails : (-1 : ℤ) = 0 := congrArg Prod.fst hoffer
    exact absurd hfails (by decide)
  · rw [hbuilt] at hoffer
    exact ⟨ct, hct, (congrArg (fun result ↦ result.2.2) hoffer).symm⟩

/-- An offer arrives as it was built. Assumes: a correct AEAD, mirrored sessions, a time of 64 bits,
and an offer that was built. -/
theorem koeMediaOfferParse_built (haead : S.Aead) (hmirrored : sender.Mirrored receiver)
    (htime : FitsTime offerEnv.now)
    (hoffer : koeMediaOfferBuild S buildEnv offerEnv filePath recipientPk sender offerOut pktOut =
      (0, offer, offerPkt)) (parsedOut : MediaOffer) :
    koeMediaOfferParse S true offerPkt receiver parsedOut = (0, offer) := by
  obtain ⟨-, -, hnow, ct, hct, hpkt⟩ := koeMediaOfferBuild_built hoffer
  have htag : koeTagLen = 16 := rfl
  have hbytes := offer.length_bytes
  obtain ⟨hlength, hopened⟩ := sealedPacket_opens haead hmirrored .mediaOffer
    PacketFlag.encrypted.mask (Block.zero 32) recipientPk hct (by omega)
  rw [← hpkt] at hlength hopened
  have hpresent : ¬ (offerPkt.payload.isNone ∨ offerPkt.header.length.toNat ≤ koeTagLen) := by
    refine not_or.mpr ⟨?_, by omega⟩
    rw [hpkt]
    exact Bool.false_ne_true
  rw [← hnow] at htime
  rw [koeMediaOfferParse, if_neg hpresent]
  simp only [hopened, MediaOffer.ofBytes_bytes htime]
  rw [if_neg (by omega), if_neg (by decide)]

/-! ### The keys in the headers -/

/-- The header of an answer. Assumes: a return code other than -1. -/
theorem mediaAnswer_header {env : BuildEnv} {verdict : UInt8} {sess : Session}
    (hrc : 0 ≤ (mediaAnswer S env verdict offer sess pktOut).1) :
    (mediaAnswer S env verdict offer sess pktOut).2.header.fromPk = offer.recipientPk ∧
      (mediaAnswer S env verdict offer sess pktOut).2.header.toPk = offer.senderPk := by
  rw [mediaAnswer] at hrc ⊢
  rw [buildSealed_header hrc]
  exact ⟨rfl, rfl⟩

/-- Assumes: a return code other than -1. -/
theorem koeMediaDoneBuild_fromPk {env : BuildEnv} {sess : Session}
    (hrc : 0 ≤ (koeMediaDoneBuild S env offer sess pktOut).1) :
    (koeMediaDoneBuild S env offer sess pktOut).2.header.fromPk = offer.senderPk := by
  rw [koeMediaDoneBuild] at hrc ⊢
  rw [buildSealed_header hrc]
  rfl

/-- Assumes: a return code other than -1. -/
theorem koeMediaChunkBuild_fromPk {env : BuildEnv} {file : OpenFile} {plainAlloc : Bool}
    {chunkIndex : UInt32} {sess : Session}
    (hrc : 0 ≤ (koeMediaChunkBuild S env file plainAlloc chunkIndex offer sess pktOut).1) :
    (koeMediaChunkBuild S env file plainAlloc chunkIndex offer sess pktOut).2.header.fromPk =
      offer.senderPk := by
  obtain ⟨data, -, -, hsealed, hbuilt⟩ := koeMediaChunkBuild_inv hrc
  rw [hbuilt]
  exact congrArg Header.fromPk (buildSealed_header hsealed.ge)

/-- What is asked of the packets of a transfer from `a` to `b`: the offer arrives as it was built,
each answer that is built from what arrived goes from `b` to `a`, and everything that the sender
builds comes from `a`. -/
structure MediaAddressed (S : Sodium) (a b : Identity) (sender receiver : Session)
    (offer : MediaOffer) (offerPkt : Packet) : Prop where
  parsed : ∀ parsedOut, koeMediaOfferParse S true offerPkt receiver parsedOut = (0, offer)
  accepted : ∀ env parsedOut pktOut,
    let built := koeMediaAcceptBuild S env
      (koeMediaOfferParse S true offerPkt receiver parsedOut).2 receiver pktOut
    0 ≤ built.1 → built.2.header.toPk = a.pk ∧ built.2.header.fromPk = b.pk
  rejected : ∀ env parsedOut pktOut,
    let built := koeMediaRejectBuild S env
      (koeMediaOfferParse S true offerPkt receiver parsedOut).2 receiver pktOut
    0 ≤ built.1 → built.2.header.toPk = a.pk ∧ built.2.header.fromPk = b.pk
  offered : offerPkt.header.fromPk = a.pk
  chunks : ∀ env file plainAlloc chunkIndex pktOut,
    let built := koeMediaChunkBuild S env file plainAlloc chunkIndex offer sender pktOut
    0 ≤ built.1 → built.2.header.fromPk = a.pk
  done : ∀ env pktOut,
    let built := koeMediaDoneBuild S env offer sender pktOut
    0 ≤ built.1 → built.2.header.fromPk = a.pk

/-- The packets of a transfer are addressed as they should be exactly when the public key of the
sender is all zero. Assumes: a correct AEAD, mirrored sessions, a time of 64 bits, and an offer that
was built. -/
theorem koeMediaAddressed_iff (haead : S.Aead) (hmirrored : sender.Mirrored receiver)
    (a b : Identity) (htime : FitsTime offerEnv.now)
    (hoffer : koeMediaOfferBuild S buildEnv offerEnv filePath b.pk sender offerOut pktOut =
      (0, offer, offerPkt)) :
    MediaAddressed S a b sender receiver offer offerPkt ↔ a.pk = Block.zero 32 := by
  obtain ⟨hsender, hrecipient, -, ct, -, hpkt⟩ := koeMediaOfferBuild_built hoffer
  have hfrom : offerPkt.header.fromPk = Block.zero 32 := by
    rw [hpkt]
    rfl
  constructor
  · intro haddressed
    exact haddressed.offered.symm.trans hfrom
  · intro hzero
    have hparsed := koeMediaOfferParse_built haead hmirrored htime hoffer
    have hanswer {env : BuildEnv} {verdict : UInt8} {pktOut : Packet}
        (hrc : 0 ≤ (mediaAnswer S env verdict offer receiver pktOut).1) :
        (mediaAnswer S env verdict offer receiver pktOut).2.header.toPk = a.pk ∧
          (mediaAnswer S env verdict offer receiver pktOut).2.header.fromPk = b.pk := by
      obtain ⟨hback, hto⟩ := mediaAnswer_header hrc
      exact ⟨hto.trans (hsender.trans hzero.symm), hback.trans hrecipient⟩
    refine ⟨hparsed, ?_, ?_, hfrom.trans hzero.symm, ?_, ?_⟩
    · intro env parsedOut pktOut
      rw [hparsed]
      exact hanswer
    · intro env parsedOut pktOut
      rw [hparsed]
      exact hanswer
    · intro env file plainAlloc chunkIndex pktOut built hrc
      exact (koeMediaChunkBuild_fromPk hrc).trans (hsender.trans hzero.symm)
    · intro env pktOut built hrc
      exact (koeMediaDoneBuild_fromPk hrc).trans (hsender.trans hzero.symm)

end Addressed

/-- An offer of a file of one byte to the identity 2. -/
def noteOffer : ℤ × MediaOffer × Packet :=
  koeMediaOfferBuild Sodium.transparent plainBuildEnv (plainOfferEnv [7]) []
    (Sodium.transparentIdentity 2).pk transferSession MediaOffer.zero (koePacketInit 0 0)

theorem noteOffer_built : noteOffer = (0, noteOffer.2.1, noteOffer.2.2) := by
  have hrc : noteOffer.1 = 0 := by
    have hreadable : (plainOfferEnv [7]).Readable 1 [7] := ⟨rfl, by decide, rfl⟩
    rw [noteOffer, koeMediaOfferBuild_eq hreadable]
    rfl
  rw [← hrc]

/-- A transfer from the identity with the public key zero. -/
theorem noteOffer_addressed :
    noteOffer.1 = 0 ∧
      MediaAddressed Sodium.transparent (Sodium.transparentIdentity 0)
        (Sodium.transparentIdentity 2) transferSession transferMirror noteOffer.2.1
        noteOffer.2.2 := by
  have htime : FitsTime (plainOfferEnv [7]).now := ⟨by decide, by decide⟩
  refine ⟨congrArg Prod.fst noteOffer_built, ?_⟩
  exact (koeMediaAddressed_iff Sodium.transparent_aead transferSession_mirrored
    (Sodium.transparentIdentity 0) (Sodium.transparentIdentity 2) htime noteOffer_built).mpr rfl

/-- The answer to an offer from the identity 1 goes to the key zero, from which the offer seems to
come. -/
theorem noteOffer_answered :
    let parsed := koeMediaOfferParse Sodium.transparent true noteOffer.2.2 transferMirror
      MediaOffer.zero
    let answer := koeMediaAcceptBuild Sodium.transparent plainBuildEnv parsed.2 transferMirror
      (koePacketInit 0 0)
    noteOffer.1 = 0 ∧ parsed = (0, noteOffer.2.1) ∧ answer.1 = 0 ∧
      answer.2.header.toPk = Block.zero 32 ∧ noteOffer.2.2.header.fromPk = Block.zero 32 ∧
      (Sodium.transparentIdentity 1).pk ≠ Block.zero 32 := by
  intro parsed answer
  have htime : FitsTime (plainOfferEnv [7]).now := ⟨by decide, by decide⟩
  have hparsed : parsed = (0, noteOffer.2.1) :=
    koeMediaOfferParse_built Sodium.transparent_aead transferSession_mirrored htime noteOffer_built
      MediaOffer.zero
  obtain ⟨hsender, -, -, ct, -, hpkt⟩ := koeMediaOfferBuild_built noteOffer_built
  have hanswer : answer = mediaAnswer Sodium.transparent plainBuildEnv 1 noteOffer.2.1
      transferMirror (koePacketInit 0 0) :=
    congrArg (fun result : ℤ × MediaOffer ↦ koeMediaAcceptBuild Sodium.transparent plainBuildEnv
      result.2 transferMirror (koePacketInit 0 0)) hparsed
  have hrc : answer.1 = 0 := by
    obtain ⟨sealedAnswer, -, hbuilt⟩ := buildSealed_eq Sodium.transparent plainBuildEnv .mediaAck
      PacketFlag.encrypted.mask noteOffer.2.1.recipientPk noteOffer.2.1.senderPk
      (noteOffer.2.1.transferId.toList ++ [1]) transferMirror (koePacketInit 0 0)
      Sodium.transparent_aead rfl
    rw [hanswer, mediaAnswer, hbuilt]
  rw [hanswer] at hrc ⊢
  refine ⟨congrArg Prod.fst noteOffer_built, hparsed, hrc, ?_, ?_, by decide⟩
  · exact (mediaAnswer_header hrc.ge).2.trans hsender
  · rw [hpkt]
    rfl

end KoeCore
