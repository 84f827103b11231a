import LedgerWire.Proofs.Decompile
import LedgerWire.Proofs.WireRoundTrip
import LedgerWire.View

/-!
What is shown of a message. Each account of an instruction is a key of the table that is shown with
it, with the privileges shown there. The indices that the keys take the place of can be found again,
since a message that was read has each key once: two messages that are shown alike are the same.
-/

namespace LedgerWire

open Message (entangledMessage entangled_compiledFrom)

namespace MessageView

variable {message other : Message} {view otherView : MessageView}

theorem ofMessage_eq_ok_iff : ofMessage message = .ok view ↔
    message.decompile = .ok view.instructions ∧ view.header = message.header ∧
      view.accountKeys = message.accountMetas.map KeyView.ofMeta ∧
      view.recentBlockhash = message.recentBlockhash ∧
      view.usesDurableNonce = message.usesDurableNonce := by
  rw [ofMessage, bind_eq_ok_iff]
  constructor
  · rintro ⟨instructions, read, made⟩
    cases made
    exact ⟨read, rfl, rfl, rfl, rfl⟩
  · rintro ⟨read, header, accountKeys, recentBlockhash, durable⟩
    refine ⟨view.instructions, read, ?_⟩
    rw [← header, ← accountKeys, ← recentBlockhash, ← durable]
    rfl

theorem publicKeys_of_ofMessage (shown : ofMessage message = .ok view) :
    view.accountKeys.map KeyView.publicKey = message.accountKeys := by
  obtain ⟨_, _, accountKeys, _⟩ := ofMessage_eq_ok_iff.mp shown
  rw [accountKeys, List.map_map, ← Message.publicKeys_accountMetas]
  rfl

structure Shows (view : MessageView) (account : AccountMeta) : Prop where
  listed : ∃ key ∈ view.accountKeys, key.publicKey = account.publicKey
  privileges : ∀ key ∈ view.accountKeys, key.publicKey = account.publicKey →
    key.isSigner = account.isSigner ∧ key.isWritable = account.isWritable

theorem shows_of_mem_accountMetas (formed : message.WellFormed)
    (shown : ofMessage message = .ok view) {account : AccountMeta}
    (held : account ∈ message.accountMetas) : view.Shows account := by
  obtain ⟨_, _, accountKeys, _⟩ := ofMessage_eq_ok_iff.mp shown
  constructor
  · rw [accountKeys]
    exact ⟨KeyView.ofMeta account, List.mem_map_of_mem held, rfl⟩
  · intro key member same
    rw [accountKeys] at member
    obtain ⟨standing, standingHeld, rfl⟩ := List.mem_map.mp member
    have distinct := Message.nodup_publicKeys_accountMetas formed
    rw [List.inj_on_of_nodup_map distinct standingHeld held same]
    exact ⟨rfl, rfl⟩

theorem eq_of_shown_alike (formed : message.WellFormed) (shown : ofMessage message = .ok view)
    (otherShown : ofMessage other = .ok otherView) (header : view.header = otherView.header)
    (accountKeys : view.accountKeys = otherView.accountKeys)
    (recentBlockhash : view.recentBlockhash = otherView.recentBlockhash)
    (instructions : view.instructions = otherView.instructions) : message = other := by
  have keys : message.accountKeys = other.accountKeys := by
    rw [← publicKeys_of_ofMessage shown, ← publicKeys_of_ofMessage otherShown, accountKeys]
  obtain ⟨read, ownHeader, _, ownBlockhash, _⟩ := ofMessage_eq_ok_iff.mp shown
  obtain ⟨otherRead, otherHeader, _, otherBlockhash, _⟩ := ofMessage_eq_ok_iff.mp otherShown
  have sameHeader : message.header = other.header := by
    rw [← ownHeader, ← otherHeader, header]
  have metas : message.accountMetas = other.accountMetas := by
    simp only [Message.accountMetas, sameHeader, keys]
  have expanded := Message.decompile_eq_ok_iff.mp read
  have otherExpanded := Message.decompile_eq_ok_iff.mp otherRead
  rw [← metas, ← instructions] at otherExpanded
  have distinct := Message.nodup_publicKeys_accountMetas formed
  apply Message.ext
  · exact sameHeader
  · exact keys
  · rw [← ownBlockhash, ← otherBlockhash, recentBlockhash]
  · exact (Message.leftUnique_expands distinct).forall₂ expanded otherExpanded

end MessageView

/-- Whatever message is read can be shown, its instructions name keys that are shown with the same
privileges, and nothing of it is lost. -/
theorem message_view_faithful {bytes : Bytes} {message : Message}
    (read : Message.decode bytes = .ok message) :
    ∃ view, MessageView.ofMessage message = .ok view ∧
      (∀ instruction ∈ view.instructions, ∀ account ∈ instruction.accounts, view.Shows account) ∧
      ∀ (otherBytes : Bytes) (other : Message) (otherView : MessageView),
        Message.decode otherBytes = .ok other → MessageView.ofMessage other = .ok otherView →
        view.header = otherView.header → view.accountKeys = otherView.accountKeys →
        view.recentBlockhash = otherView.recentBlockhash →
        view.instructions = otherView.instructions → message = other := by
  obtain ⟨_, formed, _⟩ := Message.decode_eq_ok_iff.mp read
  obtain ⟨found, decompiled⟩ := formed.exists_decompile
  have shown : MessageView.ofMessage message = .ok ⟨message.header,
      message.accountMetas.map KeyView.ofMeta, message.recentBlockhash, message.usesDurableNonce,
      found⟩ := MessageView.ofMessage_eq_ok_iff.mpr ⟨decompiled, rfl, rfl, rfl, rfl⟩
  refine ⟨_, shown, ?_, ?_⟩
  · intro instruction member account asked
    have held := Message.mem_accountMetas_of_decompile decompiled instruction member account asked
    exact MessageView.shows_of_mem_accountMetas formed shown held
  · intro _ other otherView _ otherShown header accountKeys recentBlockhash instructions
    exact MessageView.eq_of_shown_alike formed shown otherShown header accountKeys recentBlockhash
      instructions

def reorderedMessage : Message :=
  { entangledMessage with instructions := [⟨4, [1, 0, 1, 3, 2], [7, 7]⟩, ⟨3, [4, 5, 1], []⟩] }

theorem message_view_faithful_entangled :
    ∃ bytes otherBytes view otherView, Message.decode bytes = .ok entangledMessage ∧
      Message.decode otherBytes = .ok reorderedMessage ∧
      MessageView.ofMessage entangledMessage = .ok view ∧
      MessageView.ofMessage reorderedMessage = .ok otherView ∧
      view.Shows ⟨FixedBytes.filled .publicKey 2, true, true⟩ ∧
      view.accountKeys = otherView.accountKeys ∧ view.instructions ≠ otherView.instructions := by
  have written : entangledMessage.encode =
      .ok (entangledMessage.write entangledMessage.shortestSpelling) :=
    Message.encode_eq_ok_iff.mpr ⟨⟨rfl, rfl, .cons ⟨rfl, rfl⟩ (.cons ⟨rfl, rfl⟩ .nil)⟩, rfl⟩
  have otherWritten : reorderedMessage.encode =
      .ok (reorderedMessage.write reorderedMessage.shortestSpelling) :=
    Message.encode_eq_ok_iff.mpr ⟨⟨rfl, rfl, .cons ⟨rfl, rfl⟩ (.cons ⟨rfl, rfl⟩ .nil)⟩, rfl⟩
  have reordered : reorderedMessage.WellFormed := by decide +kernel
  have read := Message.decode_of_encode entangled_compiledFrom.wellFormed (by decide) written
  have otherRead := Message.decode_of_encode reordered (by decide) otherWritten
  obtain ⟨view, shown, consistent, lossless⟩ := message_view_faithful read
  obtain ⟨otherView, otherShown, _⟩ := message_view_faithful otherRead
  obtain ⟨decompiled, header, accountKeys, recentBlockhash, _⟩ :=
    MessageView.ofMessage_eq_ok_iff.mp shown
  obtain ⟨_, otherHeader, otherKeys, otherBlockhash, _⟩ :=
    MessageView.ofMessage_eq_ok_iff.mp otherShown
  have sameKeys : view.accountKeys = otherView.accountKeys := accountKeys.trans otherKeys.symm
  refine ⟨_, _, view, otherView, read, otherRead, shown, otherShown, ?_, sameKeys, ?_⟩
  · have promoted := entangled_compiledFrom.decompile_eq
    rw [decompiled, Except.ok.injEq] at promoted
    rw [promoted] at consistent
    exact consistent _ List.mem_cons_self _ List.mem_cons_self
  · intro sameInstructions
    have same := lossless _ reorderedMessage otherView otherRead otherShown
      (header.trans otherHeader.symm) sameKeys (recentBlockhash.trans otherBlockhash.symm)
      sameInstructions
    exact absurd same (by decide +kernel)

end LedgerWire
