import LedgerWire.Proofs.RecordOutline
import LedgerWire.Proofs.VoteLayout

/-!
Where reading a vote account can fail. Its decoder follows an outline of the lists and what lies
between them, and only three things stop it: the version, the tag of the root slot, and bytes that
are missing.
-/

namespace LedgerWire

open Decoder

namespace VoteAccount

variable {data : Bytes} {layout : VoteLayout} {offset stop : Nat} {failure : WireError}

abbrev version (data : Bytes) : Nat := numberAt data 4 0

def rootSlotEnd (data : Bytes) (offset : Nat) : Except WireError Nat :=
  match data[offset]? with
  | none => .error (.bufferTooSmall "vote account" offset 1 data.length)
  | some tag =>
      if tag = 0 then .ok (offset + 1)
      else if tag = 1 then room "vote account" data 8 (offset + 1)
      else .error (.invalidEncoding .voteAccount (.optionTag tag offset))

theorem le_length_of_rootSlotEnd (reached : rootSlotEnd data offset = .ok stop) :
    stop ≤ data.length := by
  unfold rootSlotEnd at reached
  split at reached
  · cases reached
  · rename_i tag found
    have inside := (List.getElem?_eq_some_iff.mp found).1
    split_ifs at reached
    · cases reached
      exact inside
    · exact le_length_of_room reached

theorem follows_rootSlotDecoder :
    Follows "vote account" data rootSlotDecoder (rootSlotEnd data) := by
  intro offset inside
  change Agrees _ _ _ (rootSlotAt offset (.within "vote account" data offset))
  unfold rootSlotEnd rootSlotAt
  cases found : data[offset]? with
  | none =>
      have cut : data.length < offset + 1 := Nat.lt_succ_of_le (List.getElem?_eq_none_iff.mp found)
      have agrees : Agrees "vote account" data _ (byte (.within "vote account" data offset)) :=
        follows_byte offset inside
      rw [room_eq_error_iff.mpr ⟨cut, rfl⟩] at agrees
      obtain ⟨after, ran⟩ := agrees.failed
      simp only [Bind.bind, EStateM.bind, ran]
      exact .fails
  | some tag =>
      obtain ⟨within, held⟩ := List.getElem?_eq_some_iff.mp found
      have read : byte.Reads ((data.drop offset).take 1) tag := by
        rw [reads_byte_iff, List.drop_eq_getElem_cons within, held]
        rfl
      simp only [Bind.bind, EStateM.bind, read.run_within within]
      split_ifs
      · exact .stops within
      · exact follows_word64.map some (offset + 1) within
      · exact .fails

def extent (data : Bytes) (layout : VoteLayout) : Except WireError Nat := do
  let rootSlot ← listEnd "vote account" data layout.voteSize 69
  let voters ← rootSlotEnd data rootSlot
  let prior ← listEnd "vote account" data 40 voters
  let credits ← room "vote account" data priorVotersSize prior
  let last ← listEnd "vote account" data 24 credits
  let time ← room "vote account" data 8 last
  room "vote account" data 8 time

def bodyDecoder (layout : VoteLayout) : Decoder VoteAccount :=
  Decoder.fixed .publicKey >>= fun node =>
  Decoder.fixed .publicKey >>= fun withdrawer =>
  Decoder.byte >>= fun commission =>
  Decoder.counted layout.voteSize (LandedVote.decoder layout) >>= fun votes =>
  rootSlotDecoder >>= fun root =>
  Decoder.counted 40 AuthorizedVoter.decoder >>= fun voters =>
  Decoder.skip priorVotersSize >>= fun _ =>
  Decoder.counted 24 EpochCredits.decoder >>= fun credits =>
  BlockTimestamp.decoder >>= fun last =>
  pure ⟨layout, node, withdrawer, commission, votes, root, voters, credits, last⟩

theorem decoder_eq_body : decoder =
    (Decoder.word32 >>= fun tag => ofExcept (VoteLayout.ofTag tag) >>= bodyDecoder) :=
  decoder_eq

theorem follows_lastTimestamp : Follows "vote account" data BlockTimestamp.decoder
    fun offset => room "vote account" data 8 offset >>= room "vote account" data 8 :=
  follows_word64.bind fun slot => (follows_word64.map UInt64.toInt64).map (BlockTimestamp.mk slot)

/-- The keys and the commission are there in any data of the least size, so the lists decide. -/
theorem agrees_extent (enough : minimumSize ≤ data.length) (bounded : data.length < maxSize)
    (layout : VoteLayout) : Agrees "vote account" data (extent data layout)
      (bodyDecoder layout (.within "vote account" data 4)) := by
  rw [minimumSize] at enough
  have follows : Follows "vote account" data (bodyDecoder layout) _ :=
    (follows_fixed .publicKey).bind fun node =>
    (follows_fixed .publicKey).bind fun withdrawer =>
    follows_byte.bind fun commission =>
    (follows_counted (LandedVote.decoder layout) bounded).bind fun votes =>
    follows_rootSlotDecoder.bind fun root =>
    (follows_counted AuthorizedVoter.decoder bounded).bind fun voters =>
    (follows_skip priorVotersSize).bind fun _ =>
    (follows_counted EpochCredits.decoder bounded).bind fun credits =>
    follows_lastTimestamp.map
      (VoteAccount.mk layout node withdrawer commission votes root voters credits)
  have node : room "vote account" data (FixedBytes.Kind.size .publicKey) 4 = .ok 36 :=
    room_of_le (Nat.le_trans (by decide) enough)
  have withdrawer : room "vote account" data (FixedBytes.Kind.size .publicKey) 36 = .ok 68 :=
    room_of_le (Nat.le_trans (by decide) enough)
  have commission : room "vote account" data 1 68 = .ok 69 :=
    room_of_le (Nat.le_trans (by decide) enough)
  have agrees := follows 4 (Nat.le_trans (by decide) enough)
  simpa only [extent, node, withdrawer, commission, Bind.bind, Except.bind] using agrees

theorem agrees_decoder (enough : minimumSize ≤ data.length) (bounded : data.length < maxSize) :
    Agrees "vote account" data
      (VoteLayout.ofTag (UInt32.ofNat (version data)) >>= extent data)
      (decoder (.within "vote account" data 0)) := by
  have fits : 0 + 4 ≤ data.length := Nat.le_trans (by decide) enough
  have read : Decoder.word32.Reads ((data.drop 0).take 4) (UInt32.ofNat (version data)) :=
    reads_map_iff.mpr ⟨_, reads_numberAt fits, rfl⟩
  rw [decoder_eq_body]
  simp only [Bind.bind, EStateM.bind, read.run_within fits]
  cases VoteLayout.ofTag (UInt32.ofNat (version data)) with
  | error failure => exact .fails
  | ok layout => exact agrees_extent enough bounded layout

theorem decode_eq_error_iff (enough : minimumSize ≤ data.length) (bounded : data.length < maxSize) :
    decode data = .error failure ↔
      (VoteLayout.ofTag (UInt32.ofNat (version data)) >>= extent data) = .error failure := by
  rw [decode, decodeRecord, if_neg (Nat.not_lt.mpr enough)]
  exact (agrees_decoder enough bounded).runOn_eq_error_iff

inductive Table where
  | votes
  | voters
  | credits

namespace Table

abbrev Entry : Table → Type
  | votes => LandedVote
  | voters => AuthorizedVoter
  | credits => EpochCredits

def entrySize (layout : VoteLayout) : Table → Nat
  | votes => layout.voteSize
  | voters => 40
  | credits => 24

def entryDecoder (layout : VoteLayout) : (table : Table) → Decoder table.Entry
  | votes => LandedVote.decoder layout
  | voters => AuthorizedVoter.decoder
  | credits => EpochCredits.decoder

instance spans_entryDecoder (layout : VoteLayout) (table : Table) :
    (table.entryDecoder layout).Spans (table.entrySize layout) := by
  cases table with
  | votes => exact LandedVote.spans_decoder layout
  | voters => exact AuthorizedVoter.spans_decoder
  | credits => exact EpochCredits.spans_decoder

end Table

inductive Stands (data : Bytes) (layout : VoteLayout) : Table → Nat → Prop where
  | votes : Stands data layout .votes 69
  | voters {rootSlot offset : Nat}
      (votes : listEnd "vote account" data layout.voteSize 69 = .ok rootSlot)
      (root : rootSlotEnd data rootSlot = .ok offset) : Stands data layout .voters offset
  | credits {voters prior offset : Nat} (before : Stands data layout .voters voters)
      (ended : listEnd "vote account" data 40 voters = .ok prior)
      (skipped : room "vote account" data priorVotersSize prior = .ok offset) :
      Stands data layout .credits offset

theorem extent_eq_error_of_listEnd {table : Table} (stands : Stands data layout table offset)
    (failed : listEnd "vote account" data (table.entrySize layout) offset = .error failure) :
    extent data layout = .error failure := by
  cases stands with
  | votes =>
      simp only [Table.entrySize] at failed
      rw [extent, failed]
      rfl
  | voters votes root =>
      simp only [Table.entrySize] at failed
      simp only [extent, votes, root, failed, Bind.bind, Except.bind]
  | credits before ended skipped =>
      simp only [Table.entrySize] at failed
      cases before with
      | voters votes root =>
          simp only [extent, votes, root, ended, skipped, failed, Bind.bind, Except.bind]

theorem toNat_version (data : Bytes) : (UInt32.ofNat (version data)).toNat = version data :=
  UInt32.toNat_ofNat_of_lt' (numberAt_lt data 4 0)

/-- What a failure can tell of data that is large enough. -/
inductive FailsAs (data : Bytes) : WireError → Prop where
  | version (notOlder : version data ≠ 1) (notCurrent : version data ≠ 2) :
      FailsAs data (.unsupportedVersion .voteAccount (version data))
  | rootSlot {layout : VoteLayout} {offset : Nat} {tag : UInt8}
      (known : version data = layout.tag.toNat)
      (reached : listEnd "vote account" data layout.voteSize 69 = .ok offset)
      (held : data[offset]? = some tag) (notNone : tag ≠ 0) (notSome : tag ≠ 1) :
      FailsAs data (.invalidEncoding .voteAccount (.optionTag tag offset))
  | short {offset needed : Nat} (inside : offset ≤ data.length)
      (missing : data.length - offset < needed) :
      FailsAs data (.bufferTooSmall "vote account" offset needed data.length)

theorem fails_of_room (inside : offset ≤ data.length) {width : Nat}
    (failed : room "vote account" data width offset = .error failure) : FailsAs data failure := by
  obtain ⟨missing, rfl⟩ := room_eq_error_iff.mp failed
  exact .short inside (by omega)

theorem fails_of_listEnd (inside : offset ≤ data.length) {size : Nat}
    (failed : listEnd "vote account" data size offset = .error failure) : FailsAs data failure := by
  rcases bind_eq_error_iff.mp failed with failed | ⟨start, reached, failed⟩
  · exact fails_of_room inside failed
  · obtain ⟨fits, rfl⟩ := room_eq_ok_iff.mp reached
    exact fails_of_room fits failed

theorem fails_of_rootSlotEnd (known : version data = layout.tag.toNat)
    (reached : listEnd "vote account" data layout.voteSize 69 = .ok offset)
    (failed : rootSlotEnd data offset = .error failure) : FailsAs data failure := by
  unfold rootSlotEnd at failed
  split at failed
  · rename_i absent
    cases failed
    have cut := List.getElem?_eq_none_iff.mp absent
    exact .short (le_length_of_listEnd reached) (by omega)
  · rename_i tag held
    split_ifs at failed with notNone notSome
    · have inside := (List.getElem?_eq_some_iff.mp held).1
      exact fails_of_room inside failed
    · cases failed
      exact .rootSlot known reached held notNone notSome

theorem fails_of_extent (enough : minimumSize ≤ data.length)
    (known : version data = layout.tag.toNat) (failed : extent data layout = .error failure) :
    FailsAs data failure := by
  have start : 69 ≤ data.length := Nat.le_trans (by decide) enough
  rcases bind_eq_error_iff.mp failed with failed | ⟨rootSlot, votes, failed⟩
  · exact fails_of_listEnd start failed
  rcases bind_eq_error_iff.mp failed with failed | ⟨voters, root, failed⟩
  · exact fails_of_rootSlotEnd known votes failed
  have inside := le_length_of_rootSlotEnd root
  rcases bind_eq_error_iff.mp failed with failed | ⟨prior, ended, failed⟩
  · exact fails_of_listEnd inside failed
  have inside := le_length_of_listEnd ended
  rcases bind_eq_error_iff.mp failed with failed | ⟨credits, skipped, failed⟩
  · exact fails_of_room inside failed
  have inside := le_length_of_room skipped
  rcases bind_eq_error_iff.mp failed with failed | ⟨last, ended, failed⟩
  · exact fails_of_listEnd inside failed
  have inside := le_length_of_listEnd ended
  rcases bind_eq_error_iff.mp failed with failed | ⟨time, read, failed⟩
  · exact fails_of_room inside failed
  · exact fails_of_room (le_length_of_room read) failed

theorem ofTag_version_eq_ok_iff :
    VoteLayout.ofTag (UInt32.ofNat (version data)) = .ok layout ↔
      version data = layout.tag.toNat := by
  rw [VoteLayout.ofTag_eq_ok_iff, ← UInt32.toNat_inj, toNat_version]

theorem ofTag_version_eq_error_iff :
    VoteLayout.ofTag (UInt32.ofNat (version data)) = .error failure ↔
      (version data ≠ 1 ∧ version data ≠ 2) ∧
        failure = .unsupportedVersion .voteAccount (version data) := by
  have older : UInt32.ofNat (version data) = 1 ↔ version data = 1 := by
    rw [← UInt32.toNat_inj, toNat_version]
    rfl
  have current : UInt32.ofNat (version data) = 2 ↔ version data = 2 := by
    rw [← UInt32.toNat_inj, toNat_version]
    rfl
  simp only [VoteLayout.ofTag, older, current, toNat_version]
  split_ifs <;> simp_all [eq_comm]

theorem listEnd_of_overflow {size : Nat} (bounded : data.length < maxSize)
    (head : offset + 8 ≤ data.length) (overflow : maxSize < numberAt data 8 offset * size) :
    listEnd "vote account" data size offset =
      .error (.bufferTooSmall "vote account" (offset + 8) maxSize data.length) := by
  rw [listEnd_of_le head, Nat.min_eq_right (Nat.le_of_lt overflow)]
  exact room_eq_error_iff.mpr ⟨by omega, rfl⟩

theorem fails_of_decode (enough : minimumSize ≤ data.length) (bounded : data.length < maxSize)
    (failed : decode data = .error failure) : FailsAs data failure := by
  have failed := (decode_eq_error_iff enough bounded).mp failed
  rcases bind_eq_error_iff.mp failed with unknown | ⟨layout, known, failed⟩
  · obtain ⟨⟨notOlder, notCurrent⟩, rfl⟩ := ofTag_version_eq_error_iff.mp unknown
    exact .version notOlder notCurrent
  · exact fails_of_extent enough (ofTag_version_eq_ok_iff.mp known) failed

/-- Data of the least size fails for its version, for the tag of its root slot, or for bytes that
are missing. The entries of a list never are once their count is accepted, and a count beyond 64
bits is refused where it ends. -/
theorem decode_failure (data : Bytes) (enough : 3762 ≤ data.length)
    (bounded : data.length < Nat.pow 2 63) :
    (∀ failure, decode data = .error failure → FailsAs data failure) ∧
    ((∃ number, decode data = .error (.unsupportedVersion .voteAccount number)) ↔
      version data ≠ 1 ∧ version data ≠ 2) ∧
    (∀ (layout : VoteLayout) (table : Table) (elements : Nat) (cursor after : Cursor),
      Decoder.count (table.entrySize layout) cursor = .ok elements after →
        elements * table.entrySize layout < Nat.pow 2 64 ∧
        elements * table.entrySize layout ≤ after.remaining ∧
        ∃ entries last,
          Decoder.times elements (table.entryDecoder layout) after = .ok entries last) ∧
    ∀ (layout : VoteLayout) (table : Table) (offset : Nat), version data = layout.tag.toNat →
      Stands data layout table offset → offset + 8 ≤ data.length →
      Nat.pow 2 64 ≤ numberAt data 8 offset * table.entrySize layout →
        decode data =
          .error (.bufferTooSmall "vote account" (offset + 8) (Nat.pow 2 64 - 1) data.length) := by
  have small : data.length < maxSize := Nat.lt_of_lt_of_le bounded (by decide)
  have failing {failure : WireError} : decode data = .error failure ↔ _ :=
    decode_eq_error_iff enough small
  refine ⟨?_, ?_, ?_, ?_⟩
  · exact fun failure => fails_of_decode enough small
  · constructor
    · rintro ⟨number, failed⟩
      cases fails_of_decode enough small failed with
      | version notOlder notCurrent => exact ⟨notOlder, notCurrent⟩
    · intro unknown
      have refused := ofTag_version_eq_error_iff.mpr ⟨unknown, rfl⟩
      exact ⟨version data, failing.mpr (bind_eq_error_iff.mpr (.inl refused))⟩
  · intro layout table elements cursor after accepted
    obtain ⟨total, fits, read⟩ := exists_times_of_count (table.entryDecoder layout) accepted
    exact ⟨Nat.lt_of_le_of_lt total (by decide), fits, read⟩
  · intro layout table offset known stands head overflow
    have beyond : maxSize < numberAt data 8 offset * table.entrySize layout :=
      Nat.lt_of_lt_of_le (by decide) overflow
    have failed := extent_eq_error_of_listEnd stands (listEnd_of_overflow small head beyond)
    have read := ofTag_version_eq_ok_iff.mpr known
    exact failing.mpr (bind_eq_error_iff.mpr (.inr ⟨layout, read, failed⟩))

theorem decode_failure_wrapping :
    let data (number : Nat) : Bytes := LittleEndian.encode 4 number ++ List.replicate 65 0 ++
      LittleEndian.encode 8 (Nat.pow 2 62) ++ List.replicate 4000 0
    let voters : Cursor :=
      ⟨some "vote account", 0, LittleEndian.encode 8 2 ++ List.replicate 90 7⟩
    (∀ number, 3762 ≤ (data number).length ∧ (data number).length < Nat.pow 2 63) ∧
    decode (data 1) = .error (.bufferTooSmall "vote account" 77 (Nat.pow 2 64 - 1) 4077) ∧
    FailsAs (data 1) (.bufferTooSmall "vote account" 77 (Nat.pow 2 64 - 1) 4077) ∧
    (∃ number, decode (data 3) = .error (.unsupportedVersion .voteAccount number)) ∧
    ∃ after entries last, Decoder.count 40 voters = .ok 2 after ∧
      Decoder.times 2 AuthorizedVoter.decoder after = .ok entries last := by
  intro data voters
  have size (number : Nat) : (data number).length = 4077 := by
    simp only [data, List.length_append, LittleEndian.length_encode, List.length_replicate]
  have fits (number : Nat) :
      3762 ≤ (data number).length ∧ (data number).length < Nat.pow 2 63 := by
    rw [size]
    decide
  obtain ⟨fails, _, accepted, refused⟩ := decode_failure (data 1) (fits 1).1 (fits 1).2
  obtain ⟨_, unknown, _⟩ := decode_failure (data 3) (fits 3).1 (fits 3).2
  have failed := refused .withoutLatency .votes 69 rfl .votes (by rw [size]; decide) (by decide)
  rw [size] at failed
  obtain ⟨_, _, entries, last, read⟩ := accepted .current .voters 2 voters _ rfl
  exact ⟨fits, failed, fails _ failed, unknown.mpr (by decide), _, entries, last, rfl, read⟩

end VoteAccount

end LedgerWire
