import KoeCore.Library.Pieces
import KoeCore.Messaging.Media

/-!
# Receiving a file

The receiving side of a file transfer in `koe_media.c`. A chunk carries its index in front of its
data, but `koe_media_chunk_receive` writes the data where the descriptor stands, and the descriptor
moves only by writing: the file that is saved is the data in the order in which the chunks arrive
(`received_contents`).

`koeMediaTransfer_complete_iff` is what follows for a transfer in which everything else works. The
file arrives, and `koe_media_finalise` accepts it, exactly when the pieces of the file put one after
the other in the order of arrival are the file. In the sending order they are.
-/

set_option autoImplicit false
set_option relaxedAutoImplicit false

namespace KoeCore

open ByteWire

/-- The file at `save_path` and the position of the descriptor in it. -/
structure SaveFile where
  contents : List UInt8
  pos : ℕ

/-- `write`: the bytes go where the descriptor stands, behind a gap of zero bytes if that is past
the end, and the descriptor moves on. -/
def SaveFile.write (file : SaveFile) (data : List UInt8) : SaveFile where
  contents := (clip file.pos file.contents).toList ++ data ++
    file.contents.drop (file.pos + data.length)
  pos := file.pos + data.length

/-- The fields of `koe_media_transfer_t` that the receiving side reads and writes, with the file
that `fd` and `save_path` stand for. -/
structure MediaTransfer where
  offer : MediaOffer
  chunksReceived : UInt32
  fd : ℤ
  saved : SaveFile

/-- A transfer of an offer into an empty file. -/
def MediaTransfer.start (offer : MediaOffer) (fd : ℤ) : MediaTransfer := ⟨offer, 0, fd, ⟨[], 0⟩⟩

/-- What the receipt of a chunk takes from its environment: whether `malloc` succeeds, and how many
bytes a `write` of a given number of bytes takes, or `none` for -1. -/
structure ReceiveEnv where
  alloc : Bool
  write : ℕ → Option ℕ

section Functions

variable (S : Sodium)

/-- The return code, and the transfer after the call. -/
def koeMediaChunkReceive (env : ReceiveEnv) (transfer : MediaTransfer) (pkt : Packet)
    (sess : Session) : ℤ × MediaTransfer :=
  if pkt.payload.isNone ∨ pkt.header.length.toNat ≤ koeTagLen then (-1, transfer)
  else
    let plainLen := pkt.header.length.toNat - koeTagLen
    if !env.alloc then (-1, transfer)
    else
      match koeDecrypt S pkt.payloadBytes pkt.header.nonce sess.rxKey with
      | none => (-1, transfer)
      | some plain =>
        if plainLen < 4 then (-1, transfer)
        else
          -- The index in the first four bytes is copied to a local variable and not used.
          let data := plain.drop 4
          match env.write data.length with
          | none => (-1, transfer)
          | some taken =>
            let transfer := { transfer with saved := transfer.saved.write (data.take taken) }
            if taken ≠ data.length then (-1, transfer)
            else (0, { transfer with chunksReceived := transfer.chunksReceived + 1 })

/-- The return code, and the transfer after the call. `opens` says whether the file can be opened
for reading. -/
def koeMediaFinalise (opens : Bool) (transfer : MediaTransfer) : ℤ × MediaTransfer :=
  let transfer := { transfer with fd := -1 }
  if !opens then (-1, transfer)
  else
    (if S.cryptoHashSha256 transfer.saved.contents = transfer.offer.sha256 then 0 else -1, transfer)

end Functions

/-! ### The offer of a file and its chunks -/

/-- The environment of an offer is that of a file: `stat` gives its length and reading it gives its
bytes. -/
def OfferEnv.Offers (offerEnv : OfferEnv) (contents : List UInt8) : Prop :=
  offerEnv.stat = some contents.length ∧ offerEnv.contents = some contents

/-- The descriptor is that of a file: what a `read` returns are bytes of the file from the offset
on. -/
def OpenFile.Holds (file : OpenFile) (contents : List UInt8) : Prop :=
  ∀ offset n data, file.read offset n = some data → data <+: contents.drop offset

section Chunks

variable {S : Sodium} {contents : List UInt8} {offer : MediaOffer}

/-- The offer describes the file. -/
structure MediaOffer.Describes (S : Sodium) (contents : List UInt8) (offer : MediaOffer) :
    Prop where
  length_le : contents.length ≤ koeMediaMaxFileSize
  fileSize : offer.fileSize.toNat = contents.length
  chunkCount : offer.chunkCount.toNat = Pieces.count koeMediaChunkSize contents.length
  sha256 : offer.sha256 = S.cryptoHashSha256 contents

/-- Assumes: a file of at most 512 MiB. -/
theorem hashedOffer_describes (offerEnv : OfferEnv) (filePath : List UInt8) (recipientPk : Block 32)
    (hlength : contents.length ≤ koeMediaMaxFileSize) :
    (hashedOffer S offerEnv contents.length contents filePath recipientPk).Describes S
      contents := by
  have hmax : koeMediaMaxFileSize = 536870912 := rfl
  have hsize : koeMediaChunkSize = 65536 := rfl
  refine ⟨hlength, ?_, ?_, rfl⟩
  · change (UInt64.ofNat ((contents.length : ℤ) % 2 ^ 64).toNat).toNat = contents.length
    rw [UInt64.toNat_ofNat']
    omega
  · have hsum : (contents.length : ℤ) + koeMediaChunkSize - 1 =
        (contents.length + koeMediaChunkSize - 1 : ℕ) := by omega
    have hcount : Pieces.count koeMediaChunkSize contents.length < 2 ^ 32 := by
      rw [Pieces.count, hsize]
      omega
    simp only [hashedOffer, unhashedOffer, hsum, UInt32.toNat_ofNat']
    rw [← Int.ofNat_tdiv, ← Pieces.count]
    omega

/-- Assumes: an offer that was built for a file of at most 512 MiB. -/
theorem koeMediaOfferBuild_describes {env : BuildEnv} {offerEnv : OfferEnv} {sess : Session}
    {filePath : List UInt8} {recipientPk : Block 32} {offerOut : MediaOffer}
    {pktOut offerPkt : Packet} (hoffers : offerEnv.Offers contents)
    (hlength : contents.length ≤ koeMediaMaxFileSize)
    (hbuilt : koeMediaOfferBuild S env offerEnv filePath recipientPk sess offerOut pktOut =
      (0, offer, offerPkt)) : offer.Describes S contents := by
  have hmax : koeMediaMaxFileSize = 536870912 := rfl
  have hreadable : offerEnv.Readable contents.length contents :=
    ⟨hoffers.1, by omega, hoffers.2⟩
  rw [koeMediaOfferBuild_eq hreadable] at hbuilt
  have hoffer : hashedOffer S offerEnv contents.length contents filePath recipientPk = offer :=
    congrArg (fun result ↦ result.2.1) hbuilt
  rw [← hoffer]
  exact hashedOffer_describes offerEnv filePath recipientPk hlength

/-- The bytes of a chunk by the size in the offer are the length of the piece. Assumes: an index of
a piece. -/
theorem MediaOffer.Describes.chunkBytes_eq (hdescribes : offer.Describes S contents) {i : ℕ}
    (hi : i < offer.chunkCount.toNat) :
    chunkBytes offer (i * koeMediaChunkSize) =
      (Pieces.piece koeMediaChunkSize contents i).length := by
  have hmax : koeMediaMaxFileSize = 536870912 := rfl
  have hlength := hdescribes.length_le
  rw [hdescribes.chunkCount, Pieces.lt_count_iff (by decide)] at hi
  have hoffset : (UInt64.ofNat (i * koeMediaChunkSize)).toNat = i * koeMediaChunkSize := by
    rw [UInt64.toNat_ofNat']
    omega
  have hremaining : (offer.fileSize - UInt64.ofNat (i * koeMediaChunkSize)).toNat =
      contents.length - i * koeMediaChunkSize := by
    rw [UInt64.toNat_sub_of_le, hoffset, hdescribes.fileSize]
    rw [UInt64.le_iff_toNat_le, hoffset, hdescribes.fileSize]
    omega
  rw [Pieces.length_piece, chunkBytes, hremaining]
  split_ifs
  · omega
  · omega

/-- Assumes: an index of a chunk. -/
theorem toNat_chunkIndex {i : ℕ} (hi : i < offer.chunkCount.toNat) :
    (UInt32.ofNat i).toNat = i := by
  have hlt := offer.chunkCount.toNat_lt
  rw [UInt32.toNat_ofNat', Nat.mod_eq_of_lt (by omega)]

/-- The packet was built for the chunk with an index. -/
def ChunkBuilt (S : Sodium) (file : OpenFile) (offer : MediaOffer) (sess : Session) (i : ℕ)
    (pkt : Packet) : Prop :=
  ∃ env plainAlloc pktOut,
    0 ≤ (koeMediaChunkBuild S env file plainAlloc (UInt32.ofNat i) offer sess pktOut).1 ∧
      (koeMediaChunkBuild S env file plainAlloc (UInt32.ofNat i) offer sess pktOut).2 = pkt

/-- The packet of a chunk is the sealed packet of its index and its piece of the file. Assumes: an
index of a piece. -/
theorem ChunkBuilt.sealed {file : OpenFile} {sess : Session} {i : ℕ} {pkt : Packet}
    (hbuilt : ChunkBuilt S file offer sess i pkt) (hdescribes : offer.Describes S contents)
    (hholds : file.Holds contents) (hi : i < offer.chunkCount.toNat) :
    let plain := (be32 (UInt32.ofNat i)).toList ++ Pieces.piece koeMediaChunkSize contents i
    ∃ flags nonce ct, koeEncrypt S plain nonce sess.txKey = some ct ∧
      pkt = ⟨sealedHeader .mediaChunk flags offer.senderPk offer.recipientPk nonce plain.length,
        some ct⟩ := by
  intro plain
  obtain ⟨env, plainAlloc, pktOut, hrc, rfl⟩ := hbuilt
  obtain ⟨data, hread, hlength, hsealed, hchunk⟩ := koeMediaChunkBuild_inv hrc
  rw [toNat_chunkIndex hi] at hread hlength
  have hdata : data = Pieces.piece koeMediaChunkSize contents i := by
    rw [hdescribes.chunkBytes_eq hi] at hlength
    exact (List.prefix_of_prefix_length_le (hholds _ _ _ hread) (List.take_prefix _ _)
      hlength.le).eq_of_length hlength
  rw [hdata] at hsealed hchunk
  rw [hchunk]
  rcases buildSealed_cases S env .mediaChunk (chunkFlags (UInt32.ofNat i) offer) offer.senderPk
      offer.recipientPk plain sess pktOut with hfailed | ⟨ct, hct, hpkt⟩
  · rw [hfailed] at hsealed
    have hfails : ¬ (-1 : ℤ) = 0 := by decide
    exact absurd hsealed hfails
  · exact ⟨_, env.nonce, ct, hct, congrArg Prod.snd hpkt⟩

/-! ### The file that is saved -/

/-- Memory is there and a `write` takes everything. -/
def ReceiveEnv.Works (env : ReceiveEnv) : Prop := env.alloc = true ∧ ∀ n, env.write n = some n

/-- The transfer after a piece was written. -/
def MediaTransfer.extend (transfer : MediaTransfer) (data : List UInt8) : MediaTransfer :=
  { transfer with
    saved := transfer.saved.write data
    chunksReceived := transfer.chunksReceived + 1 }

/-- A sealed packet opens under the mirrored session. Assumes: a correct AEAD, and a length within
32 bits. -/
theorem sealedPacket_opens (haead : S.Aead) {sender receiver : Session}
    (hmirrored : sender.Mirrored receiver) (type : PacketType) (flags : UInt8)
    (fromPk toPk : Block 32) {nonce : Block 24} {plain ct : List UInt8}
    (hct : koeEncrypt S plain nonce sender.txKey = some ct)
    (hfits : plain.length + koeTagLen < 2 ^ 32) :
    let pkt : Packet := ⟨sealedHeader type flags fromPk toPk nonce plain.length, some ct⟩
    pkt.header.length.toNat = plain.length + koeTagLen ∧
      koeDecrypt S pkt.payloadBytes pkt.header.nonce receiver.rxKey = some plain := by
  intro pkt
  have hlength : pkt.header.length.toNat = plain.length + koeTagLen := by
    change (UInt32.ofNat (plain.length + koeTagLen)).toNat = _
    rw [UInt32.toNat_ofNat', Nat.mod_eq_of_lt hfits]
  have hpayload : pkt.payloadBytes = ct :=
    Packet.payloadBytes_eq rfl (hlength.trans (haead.length_sealed hct).symm)
  refine ⟨hlength, ?_⟩
  rw [hpayload, ← hmirrored.1]
  exact koeDecrypt_koeEncrypt haead hct

/-- A chunk is received by writing its piece of the file where the descriptor stands. Assumes: a
correct AEAD, mirrored sessions, and an index of a piece. -/
theorem koeMediaChunkReceive_built (haead : S.Aead) {sender receiver : Session}
    (hmirrored : sender.Mirrored receiver) {file : OpenFile} {i : ℕ} {pkt : Packet}
    (hbuilt : ChunkBuilt S file offer sender i pkt) (hdescribes : offer.Describes S contents)
    (hholds : file.Holds contents) (hi : i < offer.chunkCount.toNat) {env : ReceiveEnv}
    (hworks : env.Works) (transfer : MediaTransfer) :
    koeMediaChunkReceive S env transfer pkt receiver =
      (0, transfer.extend (Pieces.piece koeMediaChunkSize contents i)) := by
  obtain ⟨flags, nonce, ct, hct, hpkt⟩ := hbuilt.sealed hdescribes hholds hi
  have hsize : koeMediaChunkSize = 65536 := rfl
  have htag : koeTagLen = 16 := rfl
  have hshort := Pieces.length_piece koeMediaChunkSize contents i
  generalize Pieces.piece koeMediaChunkSize contents i = data at hct hpkt hshort ⊢
  have hplain : ((be32 (UInt32.ofNat i)).toList ++ data).length = 4 + data.length := by simp
  have hdrop : ((be32 (UInt32.ofNat i)).toList ++ data).drop 4 = data :=
    List.drop_left' (List.Vector.toList_length _)
  obtain ⟨hlength, hopened⟩ := sealedPacket_opens haead hmirrored .mediaChunk flags offer.senderPk
    offer.recipientPk hct (by omega)
  rw [← hpkt] at hlength hopened
  have hpresent : ¬ (pkt.payload.isNone ∨ pkt.header.length.toNat ≤ koeTagLen) := by
    refine not_or.mpr ⟨?_, by omega⟩
    rw [hpkt]
    exact Bool.false_ne_true
  unfold koeMediaChunkReceive
  rw [if_neg hpresent]
  simp only [hworks.1, hopened, hlength, hplain, hdrop, hworks.2, List.take_length]
  rw [if_neg (by decide), if_neg (by omega), if_neg (not_not.mpr rfl)]
  rfl

/-- Assumes: a descriptor at the end of the file. -/
theorem SaveFile.write_end {file : SaveFile} (hend : file.pos = file.contents.length)
    (data : List UInt8) :
    file.write data = ⟨file.contents ++ data, (file.contents ++ data).length⟩ := by
  rw [SaveFile.write, hend, toList_clip (Nat.le_refl _), List.take_length, List.length_append,
    List.drop_of_length_le (Nat.le_add_right _ _), List.append_nil]

/-- The data of the chunks lie in the file in the order in which the chunks were received. -/
theorem extend_run {pieces : ℕ → List UInt8} (order : List ℕ) :
    ∀ transfer : MediaTransfer, transfer.saved.pos = transfer.saved.contents.length →
      (order.foldl (fun transfer i ↦ transfer.extend (pieces i)) transfer).saved.contents =
        transfer.saved.contents ++ order.flatMap pieces ∧
      (order.foldl (fun transfer i ↦ transfer.extend (pieces i)) transfer).offer =
        transfer.offer := by
  induction order with
  | nil =>
    intro transfer _
    exact ⟨(List.append_nil _).symm, rfl⟩
  | cons i order ih =>
    intro transfer hend
    have hwritten : (transfer.extend (pieces i)).saved =
        ⟨transfer.saved.contents ++ pieces i, (transfer.saved.contents ++ pieces i).length⟩ :=
      SaveFile.write_end hend (pieces i)
    obtain ⟨hcontents, hoffer⟩ := ih (transfer.extend (pieces i)) (by rw [hwritten])
    refine ⟨?_, hoffer⟩
    rw [List.foldl_cons, hcontents, hwritten, List.flatMap_cons, List.append_assoc]

variable {sender receiver : Session} {file : OpenFile} {pkts : ℕ → Packet} {env : ℕ → ReceiveEnv}

/-- The transfer after the chunks were received in an order. -/
def receiveAll (S : Sodium) (env : ℕ → ReceiveEnv) (receiver : Session) (pkts : ℕ → Packet)
    (transfer : MediaTransfer) (order : List ℕ) : MediaTransfer :=
  order.foldl (fun transfer i ↦ (koeMediaChunkReceive S (env i) transfer (pkts i) receiver).2)
    transfer

/-- The file that is saved consists of the pieces in the order of arrival. Assumes: a correct AEAD,
mirrored sessions, and chunks of the file. -/
theorem received_contents (haead : S.Aead) (hmirrored : sender.Mirrored receiver)
    (hdescribes : offer.Describes S contents) (hholds : file.Holds contents)
    (hbuilt : ∀ i < offer.chunkCount.toNat, ChunkBuilt S file offer sender i (pkts i))
    (hworks : ∀ i, (env i).Works) (fd : ℤ) {order : List ℕ}
    (horder : ∀ i ∈ order, i < offer.chunkCount.toNat) :
    let received := receiveAll S env receiver pkts (MediaTransfer.start offer fd) order
    received.saved.contents = order.flatMap (Pieces.piece koeMediaChunkSize contents) ∧
      received.offer = offer := by
  have hrun : receiveAll S env receiver pkts (MediaTransfer.start offer fd) order =
      order.foldl (fun transfer i ↦ transfer.extend (Pieces.piece koeMediaChunkSize contents i))
        (MediaTransfer.start offer fd) := by
    refine List.foldl_ext _ _ _ fun transfer i hi ↦ ?_
    rw [koeMediaChunkReceive_built haead hmirrored (hbuilt i (horder i hi)) hdescribes hholds
      (horder i hi) (hworks i)]
  intro received
  obtain ⟨hcontents, hoffer⟩ := extend_run order (MediaTransfer.start offer fd) rfl
  simp only [received, hrun]
  exact ⟨hcontents, hoffer⟩

/-- A transfer in which every chunk arrives once, in some order, gives the file and is accepted
exactly when the pieces of the file in the order of arrival are the file. Assumes: a correct AEAD, a
file of at most 512 MiB that was offered, its chunks built under the mirrored session, and a
receiver with memory that can write. -/
theorem koeMediaTransfer_complete_iff (haead : S.Aead) (hmirrored : sender.Mirrored receiver)
    {offerEnv : OfferEnv} (hoffers : offerEnv.Offers contents)
    (hlength : contents.length ≤ koeMediaMaxFileSize) {buildEnv : BuildEnv} {filePath : List UInt8}
    {recipientPk : Block 32} {offerOut : MediaOffer} {pktOut offerPkt : Packet}
    (hoffer : koeMediaOfferBuild S buildEnv offerEnv filePath recipientPk sender offerOut pktOut =
      (0, offer, offerPkt))
    (hholds : file.Holds contents)
    (hbuilt : ∀ i < offer.chunkCount.toNat, ChunkBuilt S file offer sender i (pkts i))
    (hworks : ∀ i, (env i).Works) (fd : ℤ) {order : List ℕ}
    (horder : order.Perm (List.range offer.chunkCount.toNat)) :
    let received := receiveAll S env receiver pkts (MediaTransfer.start offer fd) order
    received.saved.contents = contents ∧ (koeMediaFinalise S true received).1 = 0 ↔
      order.flatMap (Pieces.piece koeMediaChunkSize contents) = contents := by
  intro received
  have hdescribes := koeMediaOfferBuild_describes hoffers hlength hoffer
  have hindices : ∀ i ∈ order, i < offer.chunkCount.toNat := fun i hi ↦
    List.mem_range.mp (horder.mem_iff.mp hi)
  obtain ⟨hcontents, hsame⟩ :=
    received_contents haead hmirrored hdescribes hholds hbuilt hworks fd hindices
  constructor
  · rintro ⟨harrived, -⟩
    exact hcontents.symm.trans harrived
  · intro hplace
    have harrived : received.saved.contents = contents := hcontents.trans hplace
    refine ⟨harrived, ?_⟩
    have haccepted : S.cryptoHashSha256 received.saved.contents = received.offer.sha256 := by
      rw [harrived, hsame, hdescribes.sha256]
    exact if_pos haccepted

end Chunks

/-! ### Transfers in which everything works -/

/-- A descriptor of a file that can be read. -/
def OpenFile.ofContents (contents : List UInt8) : OpenFile where
  seek := fun _ ↦ true
  read := fun offset n ↦ some ((contents.drop offset).take n)

theorem OpenFile.ofContents_holds (contents : List UInt8) :
    (OpenFile.ofContents contents).Holds contents := by
  intro offset n data hread
  rw [← Option.some.inj hread]
  exact List.take_prefix n _

/-- The answers to an offer of a file. -/
def plainOfferEnv (contents : List UInt8) : OfferEnv where
  stat := some contents.length
  transferId := Block.zero 16
  now := 0
  contents := some contents

def plainBuildEnv : BuildEnv := ⟨Block.zero 24, true⟩

def plainReceiveEnv : ReceiveEnv := ⟨true, some⟩

def transferSession : Session := ⟨List.Vector.replicate 32 1, List.Vector.replicate 32 2⟩

def transferMirror : Session := ⟨transferSession.rxKey, transferSession.txKey⟩

/-- The offer of a file. -/
def plainOffer (contents : List UInt8) : MediaOffer :=
  hashedOffer Sodium.transparent (plainOfferEnv contents) contents.length contents []
    (Block.zero 32)

/-- The building of a chunk of a file. -/
def plainChunk (contents : List UInt8) (i : ℕ) : ℤ × Packet :=
  koeMediaChunkBuild Sodium.transparent plainBuildEnv (OpenFile.ofContents contents) true
    (UInt32.ofNat i) (plainOffer contents) transferSession (koePacketInit 0 0)

/-- The transfer of a file after its chunks arrived in an order. -/
def plainReceived (contents : List UInt8) (order : List ℕ) : MediaTransfer :=
  receiveAll Sodium.transparent (fun _ ↦ plainReceiveEnv) transferMirror
    (fun i ↦ (plainChunk contents i).2) (MediaTransfer.start (plainOffer contents) 3) order

theorem plainOfferEnv_offers (contents : List UInt8) : (plainOfferEnv contents).Offers contents :=
  ⟨rfl, rfl⟩

theorem transferSession_mirrored : transferSession.Mirrored transferMirror := ⟨rfl, rfl⟩

theorem plainReceiveEnv_works (_ : ℕ) : plainReceiveEnv.Works := ⟨rfl, fun _ ↦ rfl⟩

section Plain

variable {contents : List UInt8} (hlength : contents.length ≤ koeMediaMaxFileSize)

include hlength

theorem plainOffer_built :
    ∃ offerPkt, koeMediaOfferBuild Sodium.transparent plainBuildEnv (plainOfferEnv contents) []
      (Block.zero 32) transferSession MediaOffer.zero (koePacketInit 0 0) =
        (0, plainOffer contents, offerPkt) := by
  have hmax : koeMediaMaxFileSize = 536870912 := rfl
  have hreadable : (plainOfferEnv contents).Readable contents.length contents :=
    ⟨rfl, by omega, rfl⟩
  have halloc : plainBuildEnv.alloc = true := rfl
  obtain ⟨ct, -, hbuilt⟩ := buildSealed_eq Sodium.transparent plainBuildEnv .mediaOffer
    PacketFlag.encrypted.mask (Block.zero 32) (Block.zero 32) (plainOffer contents).bytes
    transferSession (koePacketInit 0 0) Sodium.transparent_aead halloc
  rw [koeMediaOfferBuild_eq hreadable]
  exact ⟨_, congrArg (fun built ↦ (built.1, plainOffer contents, built.2)) hbuilt⟩

/-- Assumes: an index of a piece. -/
theorem plainChunk_built {i : ℕ} (hi : i < (plainOffer contents).chunkCount.toNat) :
    ChunkBuilt Sodium.transparent (OpenFile.ofContents contents) (plainOffer contents)
      transferSession i (plainChunk contents i).2 := by
  refine ⟨plainBuildEnv, true, koePacketInit 0 0, ?_, rfl⟩
  have hdescribes : (plainOffer contents).Describes Sodium.transparent contents :=
    hashedOffer_describes _ _ _ hlength
  have hsize := hdescribes.chunkBytes_eq hi
  have hread : ((contents.drop (i * koeMediaChunkSize)).take
      (chunkBytes (plainOffer contents) (i * koeMediaChunkSize))).length =
        chunkBytes (plainOffer contents) (i * koeMediaChunkSize) := by
    rw [hsize, Pieces.length_piece, List.length_take, List.length_drop]
    omega
  have halloc : plainBuildEnv.alloc = true := rfl
  have hseek : (OpenFile.ofContents contents).seek
      ((UInt32.ofNat i).toNat * koeMediaChunkSize) = true := rfl
  rw [← toNat_chunkIndex hi] at hread
  obtain ⟨ct, -, hbuilt⟩ := koeMediaChunkBuild_eq transferSession (koePacketInit 0 0)
    Sodium.transparent_aead halloc hseek rfl hread
  rw [hbuilt]
  dsimp only
  split_ifs
  · decide
  · decide

/-- Assumes: indices of pieces. -/
theorem plainReceived_contents {order : List ℕ}
    (horder : ∀ i ∈ order, i < (plainOffer contents).chunkCount.toNat) :
    (plainReceived contents order).saved.contents =
      order.flatMap (Pieces.piece koeMediaChunkSize contents) :=
  (received_contents Sodium.transparent_aead transferSession_mirrored
    (hashedOffer_describes _ _ _ hlength) (OpenFile.ofContents_holds contents)
    (fun _ hi ↦ plainChunk_built hlength hi) plainReceiveEnv_works 3 horder).1

end Plain

/-- A file of two chunks that differ. -/
def unevenFile : List UInt8 := List.replicate koeMediaChunkSize 0 ++ [1]

theorem length_unevenFile : unevenFile.length = koeMediaChunkSize + 1 := by
  rw [unevenFile, List.length_append, List.length_replicate, List.length_singleton]

theorem unevenFile_length_le : unevenFile.length ≤ koeMediaMaxFileSize := by
  rw [length_unevenFile]
  decide

theorem unevenFile_chunkCount : (plainOffer unevenFile).chunkCount.toNat = 2 := by
  have hdescribes : (plainOffer unevenFile).Describes Sodium.transparent unevenFile :=
    hashedOffer_describes _ _ _ unevenFile_length_le
  rw [hdescribes.chunkCount, length_unevenFile]
  decide

/-- In the sending order the file arrives and is accepted. -/
theorem unevenFile_complete :
    (plainReceived unevenFile [0, 1]).saved.contents = unevenFile ∧
      (koeMediaFinalise Sodium.transparent true (plainReceived unevenFile [0, 1])).1 = 0 := by
  obtain ⟨offerPkt, hoffer⟩ := plainOffer_built unevenFile_length_le
  have horder : [0, 1].Perm (List.range (plainOffer unevenFile).chunkCount.toNat) := by
    rw [unevenFile_chunkCount]
    exact List.Perm.refl _
  have hplace : [0, 1].flatMap (Pieces.piece koeMediaChunkSize unevenFile) = unevenFile := by
    have hall : unevenFile.length ≤ 2 * koeMediaChunkSize := by
      rw [length_unevenFile]
      decide
    have hrange : [0, 1] = List.range 2 := rfl
    rw [hrange, Pieces.flatMap_piece, List.take_of_length_le hall]
  rw [plainReceived]
  exact (koeMediaTransfer_complete_iff Sodium.transparent_aead transferSession_mirrored
    (plainOfferEnv_offers unevenFile) unevenFile_length_le hoffer
    (OpenFile.ofContents_holds unevenFile) (fun _ hi ↦ plainChunk_built unevenFile_length_le hi)
    plainReceiveEnv_works 3 horder).mpr hplace

/-- With the two chunks the other way round it does not arrive. -/
theorem unevenFile_swapped :
    [1, 0].Perm (List.range (plainOffer unevenFile).chunkCount.toNat) ∧
      (plainReceived unevenFile [1, 0]).saved.contents ≠ unevenFile := by
  refine ⟨?_, ?_⟩
  · rw [unevenFile_chunkCount]
    decide
  · have hindices : ∀ i ∈ [1, 0], i < (plainOffer unevenFile).chunkCount.toNat := by
      rw [unevenFile_chunkCount]
      decide
    have hcontents := plainReceived_contents unevenFile_length_le hindices
    have hlast : Pieces.piece koeMediaChunkSize unevenFile 1 = [1] := by
      have hshort : [(1 : UInt8)].length ≤ koeMediaChunkSize := by decide
      rw [Pieces.piece, unevenFile, Nat.one_mul, List.drop_left' List.length_replicate,
        List.take_of_length_le hshort]
    have hfirst : unevenFile.head? = some 0 := by
      rw [unevenFile, List.head?_append, List.head?_replicate]
      rfl
    intro harrived
    have hhead := congrArg List.head? (hcontents.symm.trans harrived)
    rw [hfirst, List.flatMap_cons, hlast, List.singleton_append, List.head?_cons] at hhead
    exact absurd hhead (by decide)

end KoeCore
