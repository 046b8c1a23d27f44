import KoeCore.Messaging.Transfer
import Mathlib.Algebra.Order.Floor.Div

/-!
# The chunks of a file

`koe_media_chunk_build` over all indices, on a regular file whose contents do not change while it is
sent (`OpenFile.Delivers`). The chunks with an index below the `chunk_count` of the offer partition
the file, and the last one of them is marked (`koeMediaChunks_partition`).

Behind the end of the file the number of remaining bytes is computed in 64 bits and wraps around, so
a chunk of full size is asked for and nothing can be read: the call fails. At the very end nothing
remains, nothing is read, and the call succeeds with an empty chunk. Some chunk starts at the very
end when the size of the file is a multiple of the size of a chunk, and for an empty file it is the
first one, which a sender then takes for a chunk of the file (`koeMediaChunks_refused_iff`).
-/

set_option autoImplicit false
set_option relaxedAutoImplicit false

namespace KoeCore

open ByteWire

/-- The descriptor is that of a regular file with these contents: it can be moved anywhere, and a
`read` returns as many of the bytes asked for as there are. -/
def OpenFile.Delivers (file : OpenFile) (contents : List UInt8) : Prop :=
  (∀ offset, file.seek offset = true) ∧
    ∀ offset n, file.read offset n = some ((contents.drop offset).take n)

/-- What is asked of the building of the chunk with an index, of a number of chunks: the return code
and the flag tell the last chunk, the packet opens for the receiver as the index and the data, and
it is not too large. -/
structure IsChunk (S : Sodium) (receiver : Session) (count i : ℕ) (data : List UInt8)
    (built : ℤ × Packet) : Prop where
  returns : built.1 = if i = count - 1 then 1 else 0
  lastFrag : built.2.header.flags &&& PacketFlag.lastFrag.mask ≠ 0 ↔ i = count - 1
  opens : koeDecrypt S built.2.payloadBytes built.2.header.nonce receiver.rxKey =
    some ((be32 (UInt32.ofNat i)).toList ++ data)
  length_data : data.length ≤ koeMediaChunkSize
  fits : built.2.header.length.toNat ≤ koeMaxPayload

section Chunks

variable {S : Sodium} {contents : List UInt8} {offer : MediaOffer} {file : OpenFile}

/-! ### Chunks of the file -/

theorem chunkFlags_lastFrag (chunkIndex : UInt32) (offer : MediaOffer) :
    chunkFlags chunkIndex offer &&& PacketFlag.lastFrag.mask ≠ 0 ↔
      chunkIndex = offer.chunkCount - 1 := by
  unfold chunkFlags
  split_ifs with hlast
  · exact iff_of_true (by decide) hlast
  · exact iff_of_false (by decide) hlast

/-- The test for the last chunk, which is made in 32 bits. Assumes: an index of a chunk. -/
theorem chunkIndex_eq_last_iff {i : ℕ} (hi : i < offer.chunkCount.toNat) :
    UInt32.ofNat i = offer.chunkCount - 1 ↔ i = offer.chunkCount.toNat - 1 := by
  have hone : (1 : UInt32) ≤ offer.chunkCount := by
    rw [UInt32.le_iff_toNat_le, UInt32.toNat_one]
    omega
  rw [← UInt32.toNat_inj, toNat_chunkIndex hi, UInt32.toNat_sub_of_le _ _ hone, UInt32.toNat_one]

/-- A chunk of the file is built as it should be. Assumes: a correct AEAD, mirrored sessions,
memory, and an index of a chunk. -/
theorem koeMediaChunkBuild_isChunk (haead : S.Aead) {sender receiver : Session}
    (hmirrored : sender.Mirrored receiver) (hdescribes : offer.Describes S contents)
    (hfile : file.Delivers contents) {env : BuildEnv} (halloc : env.alloc = true)
    (pktOut : Packet) {i : ℕ} (hi : i < offer.chunkCount.toNat) :
    IsChunk S receiver offer.chunkCount.toNat i (Pieces.piece koeMediaChunkSize contents i)
      (koeMediaChunkBuild S env file true (UInt32.ofNat i) offer sender pktOut) := by
  have hsize : koeMediaChunkSize = 65536 := rfl
  have hcap : koeMaxPayload = 1048576 := rfl
  have htag : koeTagLen = 16 := rfl
  have hindex := toNat_chunkIndex hi
  have hbytes := hdescribes.chunkBytes_eq hi
  have hpiece := Pieces.length_piece koeMediaChunkSize contents i
  have hread : file.read ((UInt32.ofNat i).toNat * koeMediaChunkSize)
      (chunkBytes offer ((UInt32.ofNat i).toNat * koeMediaChunkSize)) =
        some (Pieces.piece koeMediaChunkSize contents i) := by
    rw [hindex, hfile.2, hbytes, hpiece, Pieces.piece]
    refine congrArg some (List.take_eq_take_iff.mpr ?_)
    rw [List.length_drop]
    omega
  have hlength : (Pieces.piece koeMediaChunkSize contents i).length =
      chunkBytes offer ((UInt32.ofNat i).toNat * koeMediaChunkSize) := by
    rw [hindex, hbytes]
  obtain ⟨ct, hct, hbuilt⟩ :=
    koeMediaChunkBuild_eq sender pktOut haead halloc (hfile.1 _) hread hlength
  generalize Pieces.piece koeMediaChunkSize contents i = data at *
  have hplain : ((be32 (UInt32.ofNat i)).toList ++ data).length = 4 + data.length := by simp
  obtain ⟨hheader, hopened⟩ := sealedPacket_opens haead hmirrored .mediaChunk
    (chunkFlags (UInt32.ofNat i) offer) offer.senderPk offer.recipientPk hct (by omega)
  rw [hbuilt]
  refine ⟨?_, ?_, hopened, by omega, ?_⟩
  · simp only [chunkIndex_eq_last_iff hi]
  · rw [← chunkIndex_eq_last_iff hi]
    exact chunkFlags_lastFrag (UInt32.ofNat i) offer
  · rw [hheader]
    omega

/-- The chunks of an offered file partition it, and exactly the last one is marked. Assumes: a
correct AEAD, mirrored sessions, memory, and a file of at most 512 MiB that is the same when it is
offered and when it is sent. -/
theorem koeMediaChunks_partition (haead : S.Aead) {sender receiver : Session}
    (hmirrored : sender.Mirrored receiver) (hlength : contents.length ≤ koeMediaMaxFileSize)
    {offerEnv : OfferEnv} (hoffers : offerEnv.Offers contents) (hfile : file.Delivers contents)
    {buildEnv : BuildEnv} (halloc : buildEnv.alloc = true) {env : ℕ → BuildEnv}
    (hmemory : ∀ i, (env i).alloc = true) (filePath : List UInt8) (recipientPk : Block 32)
    (offerOut : MediaOffer) (pktOut : Packet) :
    let offered :=
      koeMediaOfferBuild S buildEnv offerEnv filePath recipientPk sender offerOut pktOut
    let count := offered.2.1.chunkCount.toNat
    offered.1 = 0 ∧ count = contents.length ⌈/⌉ koeMediaChunkSize ∧
      ∃ parts : ℕ → List UInt8,
        (∀ i < count, IsChunk S receiver count i (parts i)
          (koeMediaChunkBuild S (env i) file true (UInt32.ofNat i) offered.2.1 sender pktOut)) ∧
        (List.range count).flatMap parts = contents := by
  have hmax : koeMediaMaxFileSize = 536870912 := rfl
  have hreadable : offerEnv.Readable contents.length contents :=
    ⟨hoffers.1, by omega, hoffers.2⟩
  have hdescribes := hashedOffer_describes (S := S) offerEnv filePath recipientPk hlength
  obtain ⟨ct, -, hsealed⟩ := buildSealed_eq S buildEnv .mediaOffer PacketFlag.encrypted.mask
    (Block.zero 32) recipientPk
    (hashedOffer S offerEnv contents.length contents filePath recipientPk).bytes sender pktOut
    haead halloc
  rw [koeMediaOfferBuild_eq hreadable]
  refine ⟨congrArg Prod.fst hsealed, hdescribes.chunkCount, _, fun i hi ↦
    koeMediaChunkBuild_isChunk haead hmirrored hdescribes hfile (hmemory i) pktOut hi, ?_⟩
  rw [hdescribes.chunkCount]
  exact Pieces.flatMap_piece_count (by decide) contents

/-! ### Chunks behind the end -/

/-- The size that the code computes for a chunk behind the end of the file. Assumes: an index
behind the end of the file. -/
theorem MediaOffer.Describes.chunkBytes_behind (hdescribes : offer.Describes S contents)
    {chunkIndex : UInt32} (hbehind : contents.length < chunkIndex.toNat * koeMediaChunkSize) :
    chunkBytes offer (chunkIndex.toNat * koeMediaChunkSize) = koeMediaChunkSize := by
  have hsize : koeMediaChunkSize = 65536 := rfl
  have hbound : chunkIndex.toNat * koeMediaChunkSize < 2 ^ 48 := by
    have hindex := chunkIndex.toNat_lt
    rw [hsize]
    omega
  generalize chunkIndex.toNat * koeMediaChunkSize = offset at *
  have hoffset : (UInt64.ofNat offset).toNat = offset := by
    rw [UInt64.toNat_ofNat']
    omega
  have hwraps : koeMediaChunkSize ≤ (offer.fileSize - UInt64.ofNat offset).toNat := by
    rw [UInt64.toNat_sub, hoffset, hdescribes.fileSize]
    omega
  rw [chunkBytes, if_neg (Nat.not_lt.mpr hwraps)]

/-- Assumes: an index behind the end of the file. -/
theorem koeMediaChunkBuild_behind (hdescribes : offer.Describes S contents)
    (hfile : file.Delivers contents) {chunkIndex : UInt32}
    (hbehind : contents.length < chunkIndex.toNat * koeMediaChunkSize) (env : BuildEnv)
    (sess : Session) (pktOut : Packet) :
    (koeMediaChunkBuild S env file true chunkIndex offer sess pktOut).1 = -1 := by
  have hnothing : (contents.drop (chunkIndex.toNat * koeMediaChunkSize)).take
      (chunkBytes offer (chunkIndex.toNat * koeMediaChunkSize)) = [] := by
    rw [List.drop_of_length_le (Nat.le_of_lt hbehind), List.take_nil]
  have hsome : ([] : List UInt8).length ≠ koeMediaChunkSize := by decide
  rw [koeMediaChunkBuild_short (hfile.2 _ _)]
  rw [hnothing, hdescribes.chunkBytes_behind hbehind]
  exact hsome

/-- An empty chunk is built at the very end of the file. Assumes: a correct AEAD, memory, and an
index at the end of the file. -/
theorem koeMediaChunkBuild_end (haead : S.Aead) (hdescribes : offer.Describes S contents)
    (hfile : file.Delivers contents) {env : BuildEnv} (halloc : env.alloc = true)
    {chunkIndex : UInt32} (hend : contents.length = chunkIndex.toNat * koeMediaChunkSize)
    (sess : Session) (pktOut : Packet) :
    0 ≤ (koeMediaChunkBuild S env file true chunkIndex offer sess pktOut).1 := by
  have hmax : koeMediaMaxFileSize = 536870912 := rfl
  have hle := hdescribes.length_le
  have hsame : offer.fileSize = UInt64.ofNat (chunkIndex.toNat * koeMediaChunkSize) := by
    rw [← UInt64.toNat_inj, hdescribes.fileSize, UInt64.toNat_ofNat', ← hend]
    omega
  have hbytes : chunkBytes offer (chunkIndex.toNat * koeMediaChunkSize) = 0 := by
    rw [chunkBytes, hsame, UInt64.sub_self]
    decide
  have hread : file.read (chunkIndex.toNat * koeMediaChunkSize)
      (chunkBytes offer (chunkIndex.toNat * koeMediaChunkSize)) = some [] := by
    rw [hfile.2, hbytes, List.take_zero]
  obtain ⟨ct, -, hbuilt⟩ :=
    koeMediaChunkBuild_eq sess pktOut haead halloc (hfile.1 _) hread hbytes.symm
  rw [hbuilt]
  dsimp only
  split_ifs
  · decide
  · decide

/-- Assumes: a file whose size is no multiple of the size of a chunk, and an index that is not the
one of a chunk. -/
theorem koeMediaChunkBuild_refused (hdescribes : offer.Describes S contents)
    (hfile : file.Delivers contents) (hmultiple : ¬ koeMediaChunkSize ∣ contents.length)
    {chunkIndex : UInt32} (hindex : offer.chunkCount ≤ chunkIndex) (env : BuildEnv)
    (sess : Session) (pktOut : Packet) :
    (koeMediaChunkBuild S env file true chunkIndex offer sess pktOut).1 = -1 := by
  refine koeMediaChunkBuild_behind hdescribes hfile ?_ env sess pktOut
  have hafter : ¬ chunkIndex.toNat < offer.chunkCount.toNat :=
    Nat.not_lt.mpr (UInt32.le_iff_toNat_le.mp hindex)
  rw [hdescribes.chunkCount, Pieces.lt_count_iff (by decide)] at hafter
  refine Nat.lt_of_le_of_ne (Nat.not_lt.mp hafter) fun hend ↦ hmultiple ?_
  exact ⟨chunkIndex.toNat, hend.trans (Nat.mul_comm _ _)⟩

/-! ### A sender -/

/-- A sender that builds one chunk after the other until the return code is not 0: the packets that
were built, and the last return code. The number of rounds is bounded. -/
def sendChunks (build : UInt32 → ℤ × Packet) : ℕ → UInt32 → List Packet × ℤ
  | 0, _ => ([], 0)
  | fuel + 1, chunkIndex =>
    let built := build chunkIndex
    if built.1 = 0 then
      let rest := sendChunks build fuel (chunkIndex + 1)
      (built.2 :: rest.1, rest.2)
    else (if built.1 = 1 then [built.2] else [], built.1)

/-- The sender stops behind the first chunk that is announced as the last one. Assumes: chunks of
which the one with index `first + rounds` is announced as the last one, and no earlier one. -/
theorem sendChunks_eq {build : UInt32 → ℤ × Packet} (rounds : ℕ) :
    ∀ first, (∀ i < rounds, (build (UInt32.ofNat (first + i))).1 = 0) →
      (build (UInt32.ofNat (first + rounds))).1 = 1 →
      let sent := sendChunks build (rounds + 1) (UInt32.ofNat first)
      sent.2 = 1 ∧ sent.1.length = rounds + 1 := by
  induction rounds with
  | zero =>
    intro first _ hlast sent
    simp only [sent, sendChunks, Nat.add_zero] at hlast ⊢
    simp [hlast]
  | succ rounds ih =>
    intro first hearlier hlast sent
    have hfirst : (build (UInt32.ofNat first)).1 = 0 := hearlier 0 (Nat.succ_pos rounds)
    have hnext : UInt32.ofNat first + 1 = UInt32.ofNat (first + 1) := by
      rw [UInt32.ofNat_add]
      rfl
    have hrest := ih (first + 1)
      (fun i hi ↦ by
        rw [Nat.add_right_comm]
        exact hearlier (i + 1) (Nat.succ_lt_succ hi))
      (by
        rw [Nat.add_right_comm]
        exact hlast)
    have hsent : sent = ((build (UInt32.ofNat first)).2 ::
        (sendChunks build (rounds + 1) (UInt32.ofNat (first + 1))).1,
          (sendChunks build (rounds + 1) (UInt32.ofNat (first + 1))).2) := by
      simp only [sent]
      rw [sendChunks]
      simp only [hfirst, if_true, hnext]
    rw [hsent]
    exact ⟨hrest.1, congrArg (· + 1) hrest.2⟩

/-- A sender stops behind the last chunk of the file. Assumes: a correct AEAD, memory, and a file
that is not empty. -/
theorem sendChunks_file (haead : S.Aead) (hdescribes : offer.Describes S contents)
    (hfile : file.Delivers contents) (hcontents : 0 < contents.length) {env : UInt32 → BuildEnv}
    (hmemory : ∀ i, (env i).alloc = true) (sender : Session) (pktOut : Packet) :
    let sent := sendChunks
      (fun i ↦ koeMediaChunkBuild S (env i) file true i offer sender pktOut)
      offer.chunkCount.toNat 0
    sent.2 = 1 ∧ sent.1.length = offer.chunkCount.toNat := by
  have hmirrored : sender.Mirrored ⟨sender.rxKey, sender.txKey⟩ := ⟨rfl, rfl⟩
  have hpositive : 0 < offer.chunkCount.toNat := by
    rw [hdescribes.chunkCount, Pieces.lt_count_iff (by decide), Nat.zero_mul]
    exact hcontents
  have hreturns {i : ℕ} (hi : i < offer.chunkCount.toNat) :
      (koeMediaChunkBuild S (env (UInt32.ofNat i)) file true (UInt32.ofNat i) offer sender
        pktOut).1 = if i = offer.chunkCount.toNat - 1 then 1 else 0 :=
    (koeMediaChunkBuild_isChunk haead hmirrored hdescribes hfile (hmemory _) pktOut hi).returns
  obtain ⟨rounds, hrounds⟩ : ∃ rounds, offer.chunkCount.toNat = rounds + 1 :=
    ⟨offer.chunkCount.toNat - 1, by omega⟩
  rw [hrounds]
  refine sendChunks_eq rounds 0 ?_ ?_
  · intro i hi
    rw [Nat.zero_add, hreturns (by omega), if_neg (by omega)]
  · rw [Nat.zero_add, hreturns (by omega), if_pos (by omega)]

/-- Every chunk outside the file is refused and a sender stops behind the last chunk exactly when
the size of the file is not a multiple of the size of a chunk. Assumes: a correct AEAD, memory, and
a file of at most 512 MiB that is the same when it is offered and when it is sent. -/
theorem koeMediaChunks_refused_iff (haead : S.Aead)
    (hlength : contents.length ≤ koeMediaMaxFileSize) {offerEnv : OfferEnv}
    (hoffers : offerEnv.Offers contents) (hfile : file.Delivers contents) {buildEnv : BuildEnv}
    {filePath : List UInt8} {recipientPk : Block 32} {sender : Session} {offerOut : MediaOffer}
    {pktOut offerPkt : Packet}
    (hoffer : koeMediaOfferBuild S buildEnv offerEnv filePath recipientPk sender offerOut pktOut =
      (0, offer, offerPkt))
    {env : UInt32 → BuildEnv} (hmemory : ∀ i, (env i).alloc = true) :
    let build := fun i ↦ koeMediaChunkBuild S (env i) file true i offer sender pktOut
    ((∀ i, offer.chunkCount ≤ i → (build i).1 = -1) ∧
        ∃ fuel, (sendChunks build fuel 0).2 = 1 ∧
          (sendChunks build fuel 0).1.length = offer.chunkCount.toNat) ↔
      ¬ koeMediaChunkSize ∣ contents.length := by
  have hdescribes := koeMediaOfferBuild_describes hoffers hlength hoffer
  have hsize : 0 < koeMediaChunkSize := by decide
  intro build
  constructor
  · rintro ⟨hrefused, -⟩ hmultiple
    -- The index of the chunk at the very end of the file is the number of chunks.
    have hend : contents.length = offer.chunkCount.toNat * koeMediaChunkSize := by
      obtain ⟨n, hn⟩ := hmultiple
      rw [hdescribes.chunkCount, hn, Pieces.count_mul hsize, Nat.mul_comm]
    have hbuilt := koeMediaChunkBuild_end haead hdescribes hfile (hmemory offer.chunkCount) hend
      sender pktOut
    have hfailed : (koeMediaChunkBuild S (env offer.chunkCount) file true offer.chunkCount offer
        sender pktOut).1 = -1 := hrefused offer.chunkCount (UInt32.le_refl _)
    rw [hfailed] at hbuilt
    exact absurd hbuilt (by decide)
  · intro hmultiple
    have hcontents : 0 < contents.length :=
      Nat.pos_of_ne_zero fun hempty ↦ hmultiple (hempty ▸ Nat.dvd_zero _)
    refine ⟨?_, offer.chunkCount.toNat, ?_⟩
    · intro i hi
      exact koeMediaChunkBuild_refused hdescribes hfile hmultiple hi (env i) sender pktOut
    · exact sendChunks_file haead hdescribes hfile hcontents hmemory sender pktOut

end Chunks

/-! ### Two files -/

theorem OpenFile.ofContents_delivers (contents : List UInt8) :
    (OpenFile.ofContents contents).Delivers contents :=
  ⟨fun _ ↦ rfl, fun _ _ ↦ rfl⟩

/-- The two chunks of a file that is one byte longer than a chunk. -/
theorem unevenFile_partition :
    let offered := koeMediaOfferBuild Sodium.transparent plainBuildEnv (plainOfferEnv unevenFile) []
      (Block.zero 32) transferSession MediaOffer.zero (koePacketInit 0 0)
    let count := offered.2.1.chunkCount.toNat
    offered.1 = 0 ∧ count = unevenFile.length ⌈/⌉ koeMediaChunkSize ∧
      ∃ parts : ℕ → List UInt8,
        (∀ i < count, IsChunk Sodium.transparent transferMirror count i (parts i)
          (koeMediaChunkBuild Sodium.transparent plainBuildEnv (OpenFile.ofContents unevenFile) true
            (UInt32.ofNat i) offered.2.1 transferSession (koePacketInit 0 0))) ∧
        (List.range count).flatMap parts = unevenFile :=
  koeMediaChunks_partition Sodium.transparent_aead transferSession_mirrored unevenFile_length_le
    (plainOfferEnv_offers unevenFile) (OpenFile.ofContents_delivers unevenFile) rfl (fun _ ↦ rfl)
    [] (Block.zero 32) MediaOffer.zero (koePacketInit 0 0)

/-- A file that is one byte longer than a chunk has a chunk that is not full at its end. -/
theorem unevenFile_refused :
    let build := fun i ↦ koeMediaChunkBuild Sodium.transparent plainBuildEnv
      (OpenFile.ofContents unevenFile) true i (plainOffer unevenFile) transferSession
      (koePacketInit 0 0)
    (∀ i, (plainOffer unevenFile).chunkCount ≤ i → (build i).1 = -1) ∧
      ∃ fuel, (sendChunks build fuel 0).2 = 1 ∧
        (sendChunks build fuel 0).1.length = (plainOffer unevenFile).chunkCount.toNat := by
  obtain ⟨offerPkt, hoffer⟩ := plainOffer_built unevenFile_length_le
  have hmultiple : ¬ koeMediaChunkSize ∣ unevenFile.length := by
    rw [length_unevenFile]
    decide
  have hmemory : ∀ _ : UInt32, plainBuildEnv.alloc = true := fun _ ↦ rfl
  exact (koeMediaChunks_refused_iff Sodium.transparent_aead unevenFile_length_le
    (plainOfferEnv_offers unevenFile) (OpenFile.ofContents_delivers unevenFile) hoffer
    hmemory).mpr hmultiple

/-- The building of the chunks of an empty file. -/
def emptyBuild (chunkIndex : UInt32) : ℤ × Packet :=
  koeMediaChunkBuild Sodium.transparent plainBuildEnv (OpenFile.ofContents []) true chunkIndex
    (plainOffer []) transferSession (koePacketInit 0 0)

/-- The offer of an empty file says that there are no chunks. A sender builds one all the same, and
then runs into an error. -/
theorem emptyFile_sent :
    (plainOffer []).chunkCount = 0 ∧ (emptyBuild 0).1 = 0 ∧ (emptyBuild 1).1 = -1 ∧
      (sendChunks emptyBuild 2 0).2 = -1 ∧ (sendChunks emptyBuild 2 0).1.length = 1 := by
  have hlength : ([] : List UInt8).length ≤ koeMediaMaxFileSize := Nat.zero_le _
  have hdescribes : (plainOffer []).Describes Sodium.transparent [] :=
    hashedOffer_describes _ _ _ hlength
  have hfirst : (emptyBuild 0).1 = 0 := by decide
  have hsecond : (emptyBuild 1).1 = -1 :=
    koeMediaChunkBuild_behind hdescribes (OpenFile.ofContents_delivers []) (by decide) _ _ _
  have hsent : sendChunks emptyBuild 2 0 = ([(emptyBuild 0).2], -1) := by
    have hnext : (0 : UInt32) + 1 = 1 := rfl
    simp [sendChunks, hfirst, hnext, hsecond]
  refine ⟨by decide, hfirst, hsecond, ?_, ?_⟩
  · rw [hsent]
  · rw [hsent]
    rfl

end KoeCore
