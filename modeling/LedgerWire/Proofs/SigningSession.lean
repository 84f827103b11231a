import LedgerWire.Proofs.Compile
import LedgerWire.Proofs.SignatureSlots
import LedgerWire.Proofs.WireRoundTrip

/-!
Signing sessions: a transaction that was made here or received is signed in part or in full, given
another blockhash, written and read again, in any order and with any failures. `Continues` says what
one operation may change, and so what any number of them may: the blockhash, and all the slots
together.
-/

namespace LedgerWire.Transaction

def reload (transaction : Transaction) : Except WireError Transaction := do
  decode (← transaction.encode)

inductive Operation where
  | partialSign (signers : List Signer)
  | sign (signers : List Signer)
  | setBlockhash (recentBlockhash : Hash)
  | reload

def replaceBy (transaction : Transaction) : Except WireError Transaction → Transaction
  | .ok changed => changed
  | .error _ => transaction

def perform (transaction : Transaction) : Operation → Transaction
  | .partialSign signers => transaction.replaceBy (transaction.partialSign signers)
  | .sign signers => (transaction.sign signers).1
  | .setBlockhash recentBlockhash => transaction.setBlockhash recentBlockhash
  | .reload => transaction.replaceBy transaction.reload

def run (transaction : Transaction) (operations : List Operation) : Transaction :=
  operations.foldl perform transaction

def Places (transaction : Transaction) : Operation → Prop
  | .partialSign signers | .sign signers => ∃ signed, transaction.partialSign signers = .ok signed
  | .setBlockhash _ | .reload => False

def PlacesDuring (start : Transaction) (operations : List Operation) : Prop :=
  ∃ before operation after, operations = before ++ operation :: after ∧
    (start.run before).Places operation

/-- The transactions that start from a message compiled here. -/
inductive MadeHere : Transaction → Prop where
  | built {instructions feePayer recentBlockhash signers transaction} :
      build instructions feePayer recentBlockhash signers = .ok transaction → MadeHere transaction
  | ofSignatures {instructions feePayer recentBlockhash message signatures transaction} :
      Message.compile instructions feePayer recentBlockhash = .ok message →
      Transaction.ofSignatures message signatures = .ok transaction → MadeHere transaction
  | unsigned {instructions feePayer recentBlockhash message} :
      Message.compile instructions feePayer recentBlockhash = .ok message →
      MadeHere (Transaction.unsigned message)

inductive Opened : Transaction → Prop where
  | madeHere {transaction} : MadeHere transaction → Opened transaction
  | received {bytes transaction} : decode bytes = .ok transaction → Opened transaction

/-- The message has the same structure, and there are as many slots as before or as it requires. -/
structure Continues (start state : Transaction) : Prop where
  message : ∃ recentBlockhash, state.message = start.message.withBlockhash recentBlockhash
  slots : state.signatures.length = start.signatures.length ∨
    state.signatures.length = start.message.requiredSignatures

variable {start state later transaction signed : Transaction}

theorem Continues.refl (transaction : Transaction) : transaction.Continues transaction where
  message := ⟨transaction.message.recentBlockhash, rfl⟩
  slots := .inl rfl

theorem Continues.requiredSignatures (continues : start.Continues state) :
    state.message.requiredSignatures = start.message.requiredSignatures := by
  obtain ⟨_, message⟩ := continues.message
  rw [message]
  rfl

theorem Continues.trans (first : start.Continues state) (second : state.Continues later) :
    start.Continues later where
  message := by
    obtain ⟨_, message⟩ := first.message
    obtain ⟨recentBlockhash, laterMessage⟩ := second.message
    exact ⟨recentBlockhash, by rw [laterMessage, message]; rfl⟩
  slots := by
    rcases second.slots with kept | sized
    · rw [kept]
      exact first.slots
    · exact .inr (sized.trans first.requiredSignatures)

theorem continues_partialSign {signers : List Signer}
    (done : transaction.partialSign signers = .ok signed) : transaction.Continues signed where
  message := ⟨transaction.message.recentBlockhash, message_of_partialSign done⟩
  slots := .inr (length_signatures_of_partialSign done)

theorem eq_of_reload (read : transaction.reload = .ok later) : later = transaction := by
  rw [reload, bind_eq_ok_iff] at read
  obtain ⟨bytes, written, read⟩ := read
  obtain ⟨_, _, _, spelling, spelled, same⟩ := decode_eq_ok_iff.mp read
  obtain ⟨ownSpelled, rfl⟩ := encode_eq_ok_iff.mp written
  have same : later.write spelling ++ [] = transaction.write transaction.shortestSpelling ++ [] := by
    rw [same]
  exact (write_unique spelled ownSpelled same).1

theorem continues_replaceBy {outcome : Except WireError Transaction}
    (succeeds : ∀ changed, outcome = .ok changed → transaction.Continues changed) :
    transaction.Continues (transaction.replaceBy outcome) := by
  cases outcome with
  | ok changed => exact succeeds changed rfl
  | error failure => exact .refl transaction

theorem perform_sign (transaction : Transaction) (signers : List Signer) :
    transaction.perform (.sign signers) = transaction.perform (.partialSign signers) := by
  simp only [perform, sign]
  cases transaction.partialSign signers <;> rfl

theorem continues_perform (transaction : Transaction) (operation : Operation) :
    transaction.Continues (transaction.perform operation) := by
  cases operation with
  | partialSign signers => exact continues_replaceBy fun _ => continues_partialSign
  | sign signers =>
      rw [perform_sign]
      exact continues_replaceBy fun _ => continues_partialSign
  | setBlockhash recentBlockhash => exact ⟨⟨recentBlockhash, rfl⟩, .inl rfl⟩
  | reload =>
      apply continues_replaceBy
      intro later read
      rw [eq_of_reload read]
      exact .refl transaction

theorem continues_run (start : Transaction) (operations : List Operation) :
    start.Continues (start.run operations) := by
  induction operations generalizing start with
  | nil => exact .refl start
  | cons operation rest ih => exact (continues_perform start operation).trans (ih _)

theorem length_perform_of_places {operation : Operation} (places : transaction.Places operation) :
    (transaction.perform operation).signatures.length = transaction.message.requiredSignatures := by
  have placed {signers : List Signer}
      (succeeds : ∃ signed, transaction.partialSign signers = .ok signed) :
      (transaction.perform (.partialSign signers)).signatures.length =
        transaction.message.requiredSignatures := by
    obtain ⟨signed, done⟩ := succeeds
    rw [perform, done]
    exact length_signatures_of_partialSign done
  cases operation with
  | partialSign signers => exact placed places
  | sign signers =>
      rw [perform_sign]
      exact placed places
  | setBlockhash recentBlockhash => exact places.elim
  | reload => exact places.elim

theorem Continues.all_slots (continues : start.Continues state)
    (all : start.signatures.length = start.message.requiredSignatures) :
    state.signatures.length = state.message.requiredSignatures := by
  rw [continues.requiredSignatures]
  rcases continues.slots with kept | sized
  · exact kept.trans all
  · exact sized

theorem all_slots_of_placesDuring {operations : List Operation}
    (places : start.PlacesDuring operations) :
    (start.run operations).signatures.length =
      (start.run operations).message.requiredSignatures := by
  obtain ⟨before, operation, after, rfl, placed⟩ := places
  have all := length_perform_of_places placed
  rw [← (continues_perform (start.run before) operation).requiredSignatures] at all
  rw [run, List.foldl_append]
  exact (continues_run _ after).all_slots all

theorem MadeHere.sound (made : MadeHere start) : start.message.WellFormed ∧
    start.signatures.length = start.message.requiredSignatures := by
  cases made with
  | built done =>
      obtain ⟨message, compiled, filled, _⟩ := build_eq_ok_iff.mp done
      rw [message_of_partialSign filled, length_signatures_of_partialSign filled]
      exact ⟨(Message.compile_eq_ok_iff.mp compiled).wellFormed, rfl⟩
  | ofSignatures compiled done =>
      obtain ⟨filled, _, rfl, _⟩ := ofSignatures_eq_ok_iff.mp done
      refine ⟨(Message.compile_eq_ok_iff.mp compiled).wellFormed, ?_⟩
      simp [length_place, Transaction.unsigned]
  | unsigned compiled =>
      refine ⟨(Message.compile_eq_ok_iff.mp compiled).wellFormed, ?_⟩
      simp [Transaction.unsigned]

theorem Opened.sound (opened : Opened start) : start.message.WellFormed ∧
    start.signatures.length ≤ start.message.requiredSignatures := by
  cases opened with
  | madeHere made => exact ⟨made.sound.1, Nat.le_of_eq made.sound.2⟩
  | received read =>
      obtain ⟨_, formed, within, _⟩ := decode_eq_ok_iff.mp read
      exact ⟨formed, within⟩

theorem Continues.sound (continues : start.Continues state) (formed : start.message.WellFormed)
    (within : start.signatures.length ≤ start.message.requiredSignatures) :
    state.message.WellFormed ∧ state.signatures.length ≤ state.message.requiredSignatures := by
  constructor
  · obtain ⟨recentBlockhash, message⟩ := continues.message
    rw [message]
    exact ⟨formed.readonlySigned, formed.covered, formed.distinct, formed.inside⟩
  · rw [continues.requiredSignatures]
    rcases continues.slots with kept | sized
    · rwa [kept]
    · exact Nat.le_of_eq sized

/-- Whatever is done in a session, the transaction stays well formed, and what is signed of it stays
but for the blockhash. All slots are there from the start if it was made here, and at the latest
once signatures have been placed. Up to 127 signers it can be written and read again unchanged. -/
theorem session_invariant (opened : Opened start) (operations : List Operation) :
    let state := start.run operations
    state.message.header = start.message.header ∧
    state.message.accountKeys = start.message.accountKeys ∧
    state.message.instructions = start.message.instructions ∧
    state.message.check = .ok () ∧
    state.signatures.length ≤ state.message.requiredSignatures ∧
    (MadeHere start ∨ start.PlacesDuring operations →
      state.signatures.length = state.message.requiredSignatures) ∧
    (state.message.requiredSignatures ≤ 127 → ∀ bytes, state.encode = .ok bytes →
      state.reload = .ok state) := by
  intro state
  have continues := continues_run start operations
  obtain ⟨formed, within⟩ := continues.sound opened.sound.1 opened.sound.2
  obtain ⟨recentBlockhash, message⟩ := continues.message
  refine ⟨by rw [message]; rfl, by rw [message]; rfl, by rw [message]; rfl,
    (Message.check_eq_ok_iff _).mpr formed, within, ?_, ?_⟩
  · rintro (made | places)
    · exact continues.all_slots made.sound.2
    · exact all_slots_of_placesDuring places
  · intro few bytes written
    rw [reload, written]
    exact decode_of_encode formed few within written

def stamp (byte : UInt8) : Signer where
  publicKey := FixedBytes.filled .publicKey byte
  sign _ := .ok (FixedBytes.filled .signature byte)

def halfSession : List Operation :=
  [.partialSign [stamp 3], .sign [stamp 2], .setBlockhash (FixedBytes.filled .hash 7),
    .sign [stamp 3, stamp 1], .reload]

theorem session_invariant_half_session :
    Opened halfSigned ∧ halfSigned.PlacesDuring halfSession ∧
    halfSigned.signatures.length < halfSigned.message.requiredSignatures ∧
    (halfSigned.run halfSession).signatures.length = 2 ∧
    (halfSigned.run halfSession).message.accountKeys = halfSigned.message.accountKeys ∧
    (halfSigned.run halfSession).message.check = .ok () ∧
    ∀ bytes, (halfSigned.run halfSession).encode = .ok bytes →
      (halfSigned.run halfSession).reload = .ok (halfSigned.run halfSession) := by
  have opened : Opened halfSigned := .received (decode_halfSigned halfSigned_spelledBy_spareGroups)
  have written := Message.encode_eq_ok_iff.mpr
    ⟨halfSigned_spelledBy_spareGroups.message.toShortest, rfl⟩
  have refused : halfSigned.perform (.partialSign [stamp 3]) = halfSigned := rfl
  have places : halfSigned.PlacesDuring halfSession := by
    refine ⟨[.partialSign [stamp 3]], .sign [stamp 2], _, rfl, ?_⟩
    change (halfSigned.perform (.partialSign [stamp 3])).Places _
    rw [refused]
    exact ⟨_, partialSign_eq_ok_iff.mpr ⟨[1], _, _, rfl, written, rfl, rfl⟩⟩
  obtain ⟨header, accountKeys, _, checked, _, all, reloads⟩ :=
    session_invariant opened halfSession
  have two : (halfSigned.run halfSession).message.requiredSignatures = 2 := by
    rw [Message.requiredSignatures, header]
    rfl
  refine ⟨opened, places, by decide, ?_, accountKeys, checked, reloads ?_⟩
  · rw [all (.inr places), two]
  · rw [two]
    decide

end LedgerWire.Transaction
