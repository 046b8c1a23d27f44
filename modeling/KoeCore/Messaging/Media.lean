import KoeCore.Messaging.Builders

/-!
# File offers, chunks and their answers

The builders of `koe_media.c`. An offer is sent as the bytes of the C structure, padding included,
in the layout of a little-endian machine with eight-byte alignment (`MediaOffer.bytes`). The file
system is a parameter: what `stat` and a reading of the whole file answer (`OfferEnv`), and what
`lseek` and `read` answer on an open descriptor (`OpenFile`).

A C string is the list of its bytes in front of the terminator. `koeMediaOfferBuild` never writes
`sender_pk` after clearing the record, so the offer and its header carry an all-zero sender.
-/

set_option autoImplicit false
set_option relaxedAutoImplicit false

namespace KoeCore

open ByteWire

/-- `KOE_MEDIA_CHUNK_SIZE`. -/
def koeMediaChunkSize : ℕ := 64 * 1024

/-- `KOE_MEDIA_MAX_FILE_SIZE`. -/
def koeMediaMaxFileSize : ℕ := 512 * 1024 * 1024

/-! ### Strings -/

/-- The bytes of a string literal of the source. -/
def literal (text : String) : List UInt8 := text.toList.map fun char ↦ UInt8.ofNat char.toNat

/-- The bytes behind the last `sep`, `strrchr(text, sep) + 1`. -/
def afterLast (sep : UInt8) : List UInt8 → Option (List UInt8)
  | [] => none
  | byte :: rest =>
    match afterLast sep rest with
    | some tail => some tail
    | none => if byte = sep then some rest else none

/-- `tolower` in the C locale. -/
def tolower (byte : UInt8) : UInt8 := if 0x41 ≤ byte ∧ byte ≤ 0x5A then byte + 0x20 else byte

/-- `strcasecmp(a, b) == 0`. -/
def strcasecmpEq (a b : List UInt8) : Bool := a.map tolower == b.map tolower

/-- `MIME_TABLE`. -/
def mimeTable : List (String × String) :=
  [("jpg", "image/jpeg"), ("jpeg", "image/jpeg"), ("png", "image/png"), ("gif", "image/gif"),
    ("webp", "image/webp"), ("mp4", "video/mp4"), ("mkv", "video/x-matroska"),
    ("mp3", "audio/mpeg"), ("ogg", "audio/ogg"), ("opus", "audio/opus"),
    ("pdf", "application/pdf"), ("zip", "application/zip"), ("txt", "text/plain"),
    ("md", "text/markdown")]

def koeMediaMimeFromExtension (filename : List UInt8) : List UInt8 :=
  match afterLast 0x2E filename with
  | none => literal "application/octet-stream"
  | some [] => literal "application/octet-stream"
  | some ext =>
    match mimeTable.find? fun row ↦ strcasecmpEq (literal row.1) ext with
    | none => literal "application/octet-stream"
    | some row => literal row.2

/-! ### Offers -/

/-- `koe_media_offer_t`. -/
structure MediaOffer where
  transferId : Block 16
  filename : Block 256
  mimeType : Block 128
  fileSize : UInt64
  chunkCount : UInt32
  sha256 : Block 32
  senderPk : Block 32
  recipientPk : Block 32
  offeredAt : ℤ
deriving DecidableEq

/-- The record that `memset(.., 0, ..)` leaves. -/
def MediaOffer.zero : MediaOffer where
  transferId := Block.zero 16
  filename := Block.zero 256
  mimeType := Block.zero 128
  fileSize := 0
  chunkCount := 0
  sha256 := Block.zero 32
  senderPk := Block.zero 32
  recipientPk := Block.zero 32
  offeredAt := 0

/-- The 520 bytes of the record in memory. -/
def MediaOffer.bytes (offer : MediaOffer) : List UInt8 :=
  offer.transferId.toList ++ offer.filename.toList ++ offer.mimeType.toList ++
    (leBytes 8 offer.fileSize.toNat).toList ++ (leBytes 4 offer.chunkCount.toNat).toList ++
    offer.sha256.toList ++ offer.senderPk.toList ++ offer.recipientPk.toList ++
    -- Padding in front of the eight-byte `offered_at`, cleared with the rest of the record.
    (Block.zero 4).toList ++ (leBytes 8 (offer.offeredAt % 2 ^ 64).toNat).toList

@[simp] theorem MediaOffer.length_bytes (offer : MediaOffer) : offer.bytes.length = 520 := by
  simp [MediaOffer.bytes]

/-- What an offer takes from its environment: `st_size`, or `none` when `stat` fails, the transfer
id drawn, the clock, and the bytes read from the file, or `none` when `fopen` fails. -/
structure OfferEnv where
  stat : Option ℤ
  transferId : Block 16
  now : ℤ
  contents : Option (List UInt8)

/-- The file can be offered: `stat` succeeds with a size within the cap, as a 64-bit word, and the
file can be read. -/
def OfferEnv.Readable (offerEnv : OfferEnv) (stSize : ℤ) (contents : List UInt8) : Prop :=
  offerEnv.stat = some stSize ∧ (stSize % 2 ^ 64).toNat ≤ koeMediaMaxFileSize ∧
    offerEnv.contents = some contents

/-- The part of the path behind the last slash. -/
def basename (filePath : List UInt8) : List UInt8 := (afterLast 0x2F filePath).getD filePath

/-- The offer of a file of the given size, before the file is hashed. -/
def unhashedOffer (offerEnv : OfferEnv) (stSize : ℤ) (filePath : List UInt8)
    (recipientPk : Block 32) : MediaOffer :=
  { MediaOffer.zero with
    transferId := offerEnv.transferId
    recipientPk := recipientPk
    fileSize := UInt64.ofNat (stSize % 2 ^ 64).toNat
    chunkCount :=
      UInt32.ofNat ((stSize + koeMediaChunkSize - 1).tdiv koeMediaChunkSize % 2 ^ 32).toNat
    offeredAt := offerEnv.now
    -- `strncpy` copies at most one byte less than the field has.
    filename := clip 256 ((basename filePath).take 255)
    mimeType := clip 128 ((koeMediaMimeFromExtension (basename filePath)).take 127) }

section Functions

variable (S : Sodium) (env : BuildEnv)

/-- The offer of a file of the given size and contents. -/
def hashedOffer (offerEnv : OfferEnv) (stSize : ℤ) (contents filePath : List UInt8)
    (recipientPk : Block 32) : MediaOffer :=
  { unhashedOffer offerEnv stSize filePath recipientPk with
    sha256 := S.cryptoHashSha256 contents }

/-- The return code, and the offer and the output packet after the call. -/
def koeMediaOfferBuild (offerEnv : OfferEnv) (filePath : List UInt8) (recipientPk : Block 32)
    (sess : Session) (offerOut : MediaOffer) (pktOut : Packet) : ℤ × MediaOffer × Packet :=
  match offerEnv.stat with
  | none => (-1, offerOut, pktOut)
  | some stSize =>
    if koeMediaMaxFileSize < (stSize % 2 ^ 64).toNat then (-1, offerOut, pktOut)
    else
      match offerEnv.contents with
      | none => (-1, unhashedOffer offerEnv stSize filePath recipientPk, pktOut)
      | some contents =>
        let offer := hashedOffer S offerEnv stSize contents filePath recipientPk
        let built := buildSealed S env .mediaOffer PacketFlag.encrypted.mask offer.senderPk
          recipientPk offer.bytes sess pktOut
        (built.1, offer, built.2)

/-! ### Chunks and answers -/

/-- An open file descriptor: whether `lseek` to an offset succeeds, and the bytes that a `read` of a
given number of bytes at an offset returns, or `none` for -1. -/
structure OpenFile where
  seek : ℕ → Bool
  read : ℕ → ℕ → Option (List UInt8)

/-- The bytes of the chunk at an offset, by the size in the offer. The subtraction is one of
64-bit words, and wraps behind the end of the file. -/
def chunkBytes (offer : MediaOffer) (offset : ℕ) : ℕ :=
  let remaining := (offer.fileSize - UInt64.ofNat offset).toNat
  if remaining < koeMediaChunkSize then remaining else koeMediaChunkSize

theorem chunkBytes_le (offer : MediaOffer) (offset : ℕ) :
    chunkBytes offer offset ≤ koeMediaChunkSize := by
  simp only [chunkBytes]
  split <;> omega

/-- The flags of a chunk. The last index is computed in 32 bits. -/
def chunkFlags (chunkIndex : UInt32) (offer : MediaOffer) : UInt8 :=
  PacketFlag.encrypted.mask ||| PacketFlag.fragmented.mask |||
    if chunkIndex = offer.chunkCount - 1 then PacketFlag.lastFrag.mask else 0

/-- The return code, and the output packet after the call. `plainAlloc` is whether the `malloc` of
the plaintext succeeds. -/
def koeMediaChunkBuild (file : OpenFile) (plainAlloc : Bool) (chunkIndex : UInt32)
    (offer : MediaOffer) (sess : Session) (pktOut : Packet) : ℤ × Packet :=
  let offset := chunkIndex.toNat * koeMediaChunkSize
  if !file.seek offset then (-1, pktOut)
  else if !plainAlloc then (-1, pktOut)
  else
    match file.read offset (chunkBytes offer offset) with
    | none => (-1, pktOut)
    | some data =>
      if data.length ≠ chunkBytes offer offset then (-1, pktOut)
      else
        let built := buildSealed S env .mediaChunk (chunkFlags chunkIndex offer) offer.senderPk
          offer.recipientPk ((be32 chunkIndex).toList ++ data) sess pktOut
        if built.1 ≠ 0 then (-1, built.2)
        else (if chunkIndex = offer.chunkCount - 1 then 1 else 0, built.2)

def koeMediaDoneBuild (offer : MediaOffer) (sess : Session) (pktOut : Packet) : ℤ × Packet :=
  buildSealed S env .mediaDone PacketFlag.encrypted.mask offer.senderPk offer.recipientPk
    offer.sha256.toList sess pktOut

/-- An answer to an offer: its id and the verdict, from the recipient back to the sender. -/
def mediaAnswer (verdict : UInt8) (offer : MediaOffer) (sess : Session) (pktOut : Packet) :
    ℤ × Packet :=
  buildSealed S env .mediaAck PacketFlag.encrypted.mask offer.recipientPk offer.senderPk
    (offer.transferId.toList ++ [verdict]) sess pktOut

/-- The argument `save_path` is not used. -/
def koeMediaAcceptBuild (offer : MediaOffer) (sess : Session) (pktOut : Packet) : ℤ × Packet :=
  mediaAnswer S env 1 offer sess pktOut

def koeMediaRejectBuild (offer : MediaOffer) (sess : Session) (pktOut : Packet) : ℤ × Packet :=
  mediaAnswer S env 0 offer sess pktOut

end Functions

/-! ### What the two longer builders return -/

section Specs

variable {S : Sodium} {env : BuildEnv} {sess : Session} {pktOut : Packet}

/-- The offer of a readable file is the sealed packet of its record. Assumes: a readable file. -/
theorem koeMediaOfferBuild_eq {offerEnv : OfferEnv} {stSize : ℤ} {contents : List UInt8}
    (hreadable : offerEnv.Readable stSize contents) (filePath : List UInt8)
    (recipientPk : Block 32) (offerOut : MediaOffer) :
    let offer := hashedOffer S offerEnv stSize contents filePath recipientPk
    let built := buildSealed S env .mediaOffer PacketFlag.encrypted.mask offer.senderPk
      recipientPk offer.bytes sess pktOut
    koeMediaOfferBuild S env offerEnv filePath recipientPk sess offerOut pktOut =
      (built.1, offer, built.2) := by
  obtain ⟨hstat, hmax, hcontents⟩ := hreadable
  simp only [koeMediaOfferBuild, hstat, hcontents, if_neg (Nat.not_lt.mpr hmax)]

/-- Assumes: a file that is not readable. -/
theorem koeMediaOfferBuild_unreadable {offerEnv : OfferEnv}
    (hunreadable : ∀ stSize contents, ¬ offerEnv.Readable stSize contents)
    (filePath : List UInt8) (recipientPk : Block 32) (offerOut : MediaOffer) :
    (koeMediaOfferBuild S env offerEnv filePath recipientPk sess offerOut pktOut).1 = -1 := by
  rcases hstat : offerEnv.stat with _ | stSize
  · simp only [koeMediaOfferBuild, hstat]
  rcases hcontents : offerEnv.contents with _ | contents
  · simp only [koeMediaOfferBuild, hstat, hcontents]
    split_ifs <;> rfl
  · have hmax : koeMediaMaxFileSize < (stSize % 2 ^ 64).toNat := by
      by_contra hsmall
      exact hunreadable stSize contents ⟨hstat, Nat.not_lt.mp hsmall, hcontents⟩
    simp only [koeMediaOfferBuild, hstat, if_pos hmax]

/-- An offer is built only for a readable file. Assumes: a return code other than -1. -/
theorem koeMediaOfferBuild_inv {offerEnv : OfferEnv} {filePath : List UInt8}
    {recipientPk : Block 32} {offerOut : MediaOffer}
    (hrc : 0 ≤ (koeMediaOfferBuild S env offerEnv filePath recipientPk sess offerOut pktOut).1) :
    ∃ stSize contents, offerEnv.Readable stSize contents := by
  by_contra hunreadable
  simp only [not_exists] at hunreadable
  rw [koeMediaOfferBuild_unreadable hunreadable] at hrc
  exact absurd hrc (by decide)

/-- A built chunk is the sealed packet of its index and the bytes read. Assumes: a return code other
than -1. -/
theorem koeMediaChunkBuild_inv {file : OpenFile} {plainAlloc : Bool} {chunkIndex : UInt32}
    {offer : MediaOffer}
    (hrc : 0 ≤ (koeMediaChunkBuild S env file plainAlloc chunkIndex offer sess pktOut).1) :
    ∃ data, file.read (chunkIndex.toNat * koeMediaChunkSize)
          (chunkBytes offer (chunkIndex.toNat * koeMediaChunkSize)) = some data ∧
      data.length = chunkBytes offer (chunkIndex.toNat * koeMediaChunkSize) ∧
      let built := buildSealed S env .mediaChunk (chunkFlags chunkIndex offer) offer.senderPk
        offer.recipientPk ((be32 chunkIndex).toList ++ data) sess pktOut
      built.1 = 0 ∧ koeMediaChunkBuild S env file plainAlloc chunkIndex offer sess pktOut =
        (if chunkIndex = offer.chunkCount - 1 then 1 else 0, built.2) := by
  simp only [koeMediaChunkBuild] at hrc ⊢
  by_cases hseek : file.seek (chunkIndex.toNat * koeMediaChunkSize) = true
  swap
  · simp [hseek] at hrc
  by_cases halloc : plainAlloc = true
  swap
  · simp [hseek, halloc] at hrc
  rcases hread : file.read (chunkIndex.toNat * koeMediaChunkSize)
      (chunkBytes offer (chunkIndex.toNat * koeMediaChunkSize)) with _ | data
  · simp [hseek, halloc, hread] at hrc
  by_cases hlength : data.length = chunkBytes offer (chunkIndex.toNat * koeMediaChunkSize)
  swap
  · simp [hseek, halloc, hread, hlength] at hrc
  refine ⟨data, rfl, hlength, ?_⟩
  rcases buildSealed_cases S env .mediaChunk (chunkFlags chunkIndex offer) offer.senderPk
      offer.recipientPk ((be32 chunkIndex).toList ++ data) sess pktOut with
    hfailed | ⟨ct, -, hbuilt⟩
  · simp [hseek, halloc, hread, hlength, hfailed] at hrc
  · simp [hseek, halloc, hlength, hbuilt]

variable (sess pktOut) in
/-- A chunk of which all bytes can be read is built. Assumes: a correct AEAD, memory, and a
descriptor that moves to the chunk and reads all of it. -/
theorem koeMediaChunkBuild_eq (haead : S.Aead) (halloc : env.alloc = true) {file : OpenFile}
    {chunkIndex : UInt32} {offer : MediaOffer} {data : List UInt8}
    (hseek : file.seek (chunkIndex.toNat * koeMediaChunkSize) = true)
    (hread : file.read (chunkIndex.toNat * koeMediaChunkSize)
      (chunkBytes offer (chunkIndex.toNat * koeMediaChunkSize)) = some data)
    (hlength : data.length = chunkBytes offer (chunkIndex.toNat * koeMediaChunkSize)) :
    let plain := (be32 chunkIndex).toList ++ data
    ∃ ct, koeEncrypt S plain env.nonce sess.txKey = some ct ∧
      koeMediaChunkBuild S env file true chunkIndex offer sess pktOut =
        (if chunkIndex = offer.chunkCount - 1 then 1 else 0,
          ⟨sealedHeader .mediaChunk (chunkFlags chunkIndex offer) offer.senderPk offer.recipientPk
            env.nonce plain.length, some ct⟩) := by
  intro plain
  obtain ⟨ct, hct, hbuilt⟩ := buildSealed_eq S env .mediaChunk (chunkFlags chunkIndex offer)
    offer.senderPk offer.recipientPk ((be32 chunkIndex).toList ++ data) sess pktOut haead halloc
  refine ⟨ct, hct, ?_⟩
  simp only [koeMediaChunkBuild, hseek, hread, hbuilt]
  rw [if_neg (by decide), if_neg (by decide), if_neg (not_not.mpr hlength)]
  exact if_neg (not_not.mpr rfl)

/-- A chunk of which some bytes are missing is refused. Assumes: a descriptor that reads another
number of bytes than the offer says. -/
theorem koeMediaChunkBuild_short {file : OpenFile} {plainAlloc : Bool} {chunkIndex : UInt32}
    {offer : MediaOffer} {data : List UInt8}
    (hread : file.read (chunkIndex.toNat * koeMediaChunkSize)
      (chunkBytes offer (chunkIndex.toNat * koeMediaChunkSize)) = some data)
    (hlength : data.length ≠ chunkBytes offer (chunkIndex.toNat * koeMediaChunkSize)) :
    koeMediaChunkBuild S env file plainAlloc chunkIndex offer sess pktOut = (-1, pktOut) := by
  simp only [koeMediaChunkBuild, hread, if_pos hlength, ite_self]

end Specs

end KoeCore
