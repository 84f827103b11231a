import LedgerWire.Proofs.SignatureSlots

/-!
Signing in part: what fills each slot, and which of the failures is reported. Done in place, step by
step, it leaves a transaction as it was whenever it fails, asks nobody before every key has a slot and
the message has its bytes, and writes to no slot that is not there.
-/

namespace LedgerWire.Transaction

variable {transaction signed other : Transaction} {signers : List Signer} {bytes : Bytes}
variable {message : Message} {slot : Nat} {failure : WireError}

def lastOwner? (message : Message) (signers : List Signer) (slot : Nat) : Option Signer :=
  (signers.filter fun signer =>
    message.signerKeys.idxOf? signer.publicKey == some slot).getLast?

/-- Everybody signs the bytes of the message, and the other slots keep what they held. -/
structure SignedBy (transaction : Transaction) (signers : List Signer) (bytes : Bytes)
    (signed : Transaction) : Prop where
  owned : ∀ signer ∈ signers, signer.publicKey ∈ transaction.message.signerKeys
  written : transaction.message.encode = .ok bytes
  answered : ∀ signer ∈ signers, ∃ signature, signer.sign bytes = .ok signature
  message : signed.message = transaction.message
  length : signed.signatures.length = transaction.message.requiredSignatures
  placed : ∀ slot signer, lastOwner? transaction.message signers slot = some signer →
    ∃ signature, signer.sign bytes = .ok signature ∧ signed.signatures[slot]? = some signature
  kept : ∀ slot < transaction.message.requiredSignatures,
    lastOwner? transaction.message signers slot = none →
      signed.signatures[slot]? = some (transaction.signatures[slot]?.getD Signature.placeholder)

/-- The failures of signing in the order in which they are looked for, each with the signers that
have been asked by then. -/
inductive Refused (transaction : Transaction) (signers : List Signer) :
    WireError → List Signer → Prop where
  | unknownSigner {before signer after} : signers = before ++ signer :: after →
      (∀ other ∈ before, other.publicKey ∈ transaction.message.signerKeys) →
      signer.publicKey ∉ transaction.message.signerKeys →
      Refused transaction signers (.unknownSigner signer.publicKey) []
  | unwritten {failure : WireError} :
      (∀ signer ∈ signers, signer.publicKey ∈ transaction.message.signerKeys) →
      transaction.message.encode = .error failure → Refused transaction signers failure []
  | unanswered {bytes : Bytes} {before signer after} {failure : WireError} :
      (∀ signer ∈ signers, signer.publicKey ∈ transaction.message.signerKeys) →
      transaction.message.encode = .ok bytes → signers = before ++ signer :: after →
      (∀ other ∈ before, ∃ signature, other.sign bytes = .ok signature) →
      signer.sign bytes = .error failure →
      Refused transaction signers failure (before ++ [signer])

theorem exists_slots (owned : ∀ signer ∈ signers, signer.publicKey ∈ message.signerKeys) :
    ∃ slots, signers.mapM (fun signer => slotOf message signer.publicKey) = .ok slots :=
  exists_mapM_eq_ok fun signer member => exists_slotOf_iff.mpr (owned signer member)

theorem mem_signerKeys_of_slots {slots : List Nat}
    (looked : signers.mapM (fun signer => slotOf message signer.publicKey) = .ok slots) :
    ∀ signer ∈ signers, signer.publicKey ∈ message.signerKeys :=
  fun _ member => exists_slotOf_iff.mp (exists_of_mapM_eq_ok looked member)

theorem SignedBy.unique (first : transaction.SignedBy signers bytes signed)
    (second : transaction.SignedBy signers bytes other) : signed = other := by
  apply Transaction.ext
  · apply List.ext_getElem?
    intro slot
    by_cases inside : slot < transaction.message.requiredSignatures
    · cases owner : lastOwner? transaction.message signers slot with
      | none => rw [first.kept slot inside owner, second.kept slot inside owner]
      | some signer =>
          obtain ⟨signature, answer, held⟩ := first.placed slot signer owner
          obtain ⟨otherSignature, otherAnswer, otherHeld⟩ := second.placed slot signer owner
          rw [answer, Except.ok.injEq] at otherAnswer
          rw [held, otherHeld, otherAnswer]
    · have beyond := Nat.not_lt.mp inside
      rw [List.getElem?_eq_none (by rwa [first.length]),
        List.getElem?_eq_none (by rwa [second.length])]
  · rw [first.message, second.message]

theorem map_sign_owners {slots : List Nat} {signatures : List Signature}
    (owned : List.Forall₂ (fun signer slot => slotOf message signer.publicKey = .ok slot)
      signers slots)
    (answered : List.Forall₂ (fun signer signature => signer.sign bytes = .ok signature)
      signers signatures) (slot : Nat) :
    (signers.filter fun signer => message.signerKeys.idxOf? signer.publicKey == some slot).map
        (fun signer => signer.sign bytes) =
      (((slots.zip signatures).filter fun entry => entry.1 == slot).map Prod.snd).map .ok := by
  induction owned generalizing signatures with
  | nil => rfl
  | @cons signer place signers slots owns _ ih =>
      cases answered with
      | @cons _ signature _ signatures answer answered =>
          rw [List.zip_cons_cons, List.filter_cons, List.filter_cons, slotOf_eq_ok_iff.mp owns]
          by_cases same : place = slot
          · simp [same, answer, ih answered]
          · simp [same, ih answered]

theorem slotOf_of_lastOwner? {signer : Signer} (owner : lastOwner? message signers slot = some signer) :
    slotOf message signer.publicKey = .ok slot := by
  have owns := (List.mem_filter.mp (List.mem_of_getLast? owner)).2
  exact slotOf_eq_ok_iff.mpr (eq_of_beq owns)

theorem signedBy_of_partialSign (done : transaction.partialSign signers = .ok signed) :
    ∃ bytes, transaction.SignedBy signers bytes signed := by
  obtain ⟨slots, bytes, signatures, looked, written, ran, made⟩ := partialSign_eq_ok_iff.mp done
  have last (slot : Nat) : (lastOwner? transaction.message signers slot).map
      (fun signer => signer.sign bytes) =
        (((slots.zip signatures).filter fun entry => entry.1 == slot).map Prod.snd).getLast?.map
          .ok := by
    rw [lastOwner?, ← List.getLast?_map, ← List.getLast?_map]
    rw [map_sign_owners (mapM_eq_ok_iff.mp looked) (mapM_eq_ok_iff.mp ran)]
  have held {slot : Nat} (inside : slot < transaction.message.requiredSignatures) :
      signed.signatures[slot]? = some
        ((((slots.zip signatures).filter fun entry => entry.1 == slot).map Prod.snd).getLast?.getD
          (transaction.signatures[slot]?.getD Signature.placeholder)) := by
    rw [made, getElem?_place, getElem?_resize _ inside, Option.map_some]
  refine ⟨bytes, ⟨mem_signerKeys_of_slots looked, written, ?_, message_of_partialSign done,
    length_signatures_of_partialSign done, ?_, ?_⟩⟩
  · intro signer member
    exact exists_of_mapM_eq_ok ran member
  · intro slot signer owner
    have inside := lt_requiredSignatures_of_slotOf (slotOf_of_lastOwner? owner)
    have answer := last slot
    rw [owner, Option.map_some, eq_comm, Option.map_eq_some_iff] at answer
    obtain ⟨signature, placed, answer⟩ := answer
    refine ⟨signature, answer.symm, ?_⟩
    rw [held inside, placed, Option.getD_some]
  · intro slot inside nobody
    have nothing := last slot
    rw [nobody, Option.map_none, eq_comm, Option.map_eq_none_iff] at nothing
    rw [held inside, nothing, Option.getD_none]

theorem exists_partialSign
    (owned : ∀ signer ∈ signers, signer.publicKey ∈ transaction.message.signerKeys)
    (written : transaction.message.encode = .ok bytes)
    (answered : ∀ signer ∈ signers, ∃ signature, signer.sign bytes = .ok signature) :
    ∃ signed, transaction.partialSign signers = .ok signed ∧
      transaction.SignedBy signers bytes signed := by
  obtain ⟨slots, looked⟩ := exists_slots owned
  obtain ⟨signatures, ran⟩ := exists_mapM_eq_ok answered
  have done := partialSign_eq_ok_iff.mpr ⟨slots, bytes, signatures, looked, written, ran, rfl⟩
  obtain ⟨sameBytes, made⟩ := signedBy_of_partialSign done
  obtain rfl : bytes = sameBytes := Except.ok.inj (written.symm.trans made.written)
  exact ⟨_, done, made⟩

theorem partialSign_eq_ok_iff_signedBy : transaction.partialSign signers = .ok signed ↔
    ∃ bytes, transaction.SignedBy signers bytes signed := by
  constructor
  · exact signedBy_of_partialSign
  · rintro ⟨bytes, given⟩
    obtain ⟨other, done, made⟩ := exists_partialSign given.owned given.written given.answered
    rw [given.unique made]
    exact done

theorem refused_of_partialSign (failed : transaction.partialSign signers = .error failure) :
    ∃ asked, transaction.Refused signers failure asked := by
  cases looked : signers.mapM fun signer => slotOf transaction.message signer.publicKey with
  | error unknown =>
      rw [partialSign, looked] at failed
      cases failed
      obtain ⟨before, signer, after, split, owned, foreign⟩ := mapM_eq_error_iff.mp looked
      obtain ⟨absent, rfl⟩ := unknownSigner_of_slotOf foreign
      exact ⟨[], .unknownSigner split
        (fun other member => exists_slotOf_iff.mp (owned other member)) absent⟩
  | ok slots =>
      have owned := mem_signerKeys_of_slots looked
      cases written : transaction.message.encode with
      | error tooLong =>
          rw [partialSign, looked, written] at failed
          cases failed
          exact ⟨[], .unwritten owned written⟩
      | ok bytes =>
          cases ran : signers.mapM fun signer => signer.sign bytes with
          | error silent =>
              simp only [partialSign, looked, written, bind, Except.bind, ran] at failed
              cases failed
              obtain ⟨before, signer, after, split, answered, refused⟩ := mapM_eq_error_iff.mp ran
              exact ⟨before ++ [signer], .unanswered owned written split answered refused⟩
          | ok signatures =>
              rw [partialSign_eq_ok_iff.mpr ⟨slots, bytes, signatures, looked, written, ran, rfl⟩]
                at failed
              cases failed

/-- Why a run in place stops: a failure that is reported, or a slot that is not there. -/
inductive Halt where
  | failure (error : WireError)
  | outOfBounds (slot : Nat)

structure Signing where
  transaction : Transaction
  asked : List Signer

abbrev InPlace := ExceptT Halt (StateM Signing)

namespace InPlace

variable {α β : Type} {before between : Signing} {asked : List Signer}

def attempt (outcome : Except WireError α) : InPlace α :=
  match outcome with
  | .ok result => return result
  | .error failure => throw (.failure failure)

def lookUp (signer : Signer) : InPlace Nat := do
  attempt (slotOf (← get).transaction.message signer.publicKey)

def writeMessage : InPlace Bytes := do
  attempt (← get).transaction.message.encode

def ask (bytes : Bytes) (signer : Signer) : InPlace Signature := do
  modify fun signing => { signing with asked := signing.asked ++ [signer] }
  attempt (signer.sign bytes)

def makeRoom : InPlace Unit := modify fun signing =>
  { signing with
    transaction.signatures :=
      resize signing.transaction.signatures signing.transaction.message.requiredSignatures }

def put (entry : Nat × Signature) : InPlace Unit := do
  let signing ← get
  if entry.1 < signing.transaction.signatures.length then
    set { signing with
      transaction.signatures := signing.transaction.signatures.set entry.1 entry.2 }
  else
    throw (.outOfBounds entry.1)

def partialSign (signers : List Signer) : InPlace Unit := do
  let slots ← signers.mapM lookUp
  let bytes ← writeMessage
  let signatures ← signers.mapM (ask bytes)
  makeRoom
  (slots.zip signatures).forM put

theorem run_bind_of_ok {first : InPlace α} {next : α → InPlace β} {value : α}
    (ran : first.run before = (.ok value, between)) :
    (first >>= next).run before = (next value).run between := by
  change (match first.run before with | (ended, after) => ExceptT.bindCont next ended after) = _
  rw [ran]
  rfl

theorem run_bind_of_error {first : InPlace α} {next : α → InPlace β} {halt : Halt}
    (ran : first.run before = (.error halt, between)) :
    (first >>= next).run before = (.error halt, between) := by
  change (match first.run before with | (ended, after) => ExceptT.bindCont next ended after) = _
  rw [ran]
  rfl

theorem run_attempt (outcome : Except WireError α) :
    (attempt outcome).run before = (outcome.mapError Halt.failure, before) := by
  cases outcome <;> rfl

theorem run_mapM_of_reads {action : α → InPlace β} {step : α → Except WireError β}
    (reads : ∀ item, (action item).run before = ((step item).mapError Halt.failure, before))
    (items : List α) :
    (items.mapM action).run before = ((items.mapM step).mapError Halt.failure, before) := by
  induction items with
  | nil => rfl
  | cons item items ih =>
      have first := reads item
      rw [List.mapM_cons, List.mapM_cons]
      cases stepped : step item with
      | error failure =>
          rw [stepped] at first
          exact run_bind_of_error first
      | ok result =>
          rw [stepped] at first
          rw [run_bind_of_ok first]
          cases others : items.mapM step with
          | error failure =>
              rw [others] at ih
              exact run_bind_of_error ih
          | ok results =>
              rw [others] at ih
              rw [run_bind_of_ok ih]
              rfl

theorem run_lookUp (signer : Signer) : (lookUp signer).run ⟨transaction, asked⟩ =
    ((slotOf transaction.message signer.publicKey).mapError Halt.failure, ⟨transaction, asked⟩) :=
  run_attempt _

theorem run_writeMessage : writeMessage.run ⟨transaction, asked⟩ =
    (transaction.message.encode.mapError Halt.failure, ⟨transaction, asked⟩) :=
  run_attempt _

theorem run_ask (signer : Signer) : (ask bytes signer).run ⟨transaction, asked⟩ =
    ((signer.sign bytes).mapError Halt.failure, ⟨transaction, asked ++ [signer]⟩) :=
  run_attempt _

theorem run_mapM_ask {signatures : List Signature}
    (answered : List.Forall₂ (fun signer signature => signer.sign bytes = .ok signature)
      signers signatures) (asked : List Signer) :
    (signers.mapM (ask bytes)).run ⟨transaction, asked⟩ =
      (.ok signatures, ⟨transaction, asked ++ signers⟩) := by
  induction answered generalizing asked with
  | nil =>
      rw [List.append_nil]
      rfl
  | @cons signer signature signers signatures answer _ ih =>
      have first : (ask bytes signer).run ⟨transaction, asked⟩ =
          (.ok signature, ⟨transaction, asked ++ [signer]⟩) := by
        rw [run_ask, answer]
        rfl
      rw [List.mapM_cons, run_bind_of_ok first, run_bind_of_ok (ih _), List.append_assoc]
      rfl

theorem run_mapM_ask_of_failure {first rest : List Signer} {signer : Signer}
    (answered : ∀ other ∈ first, ∃ signature, other.sign bytes = .ok signature)
    (failed : signer.sign bytes = .error failure) (asked : List Signer) :
    ((first ++ signer :: rest).mapM (ask bytes)).run ⟨transaction, asked⟩ =
      (.error (.failure failure), ⟨transaction, asked ++ (first ++ [signer])⟩) := by
  obtain ⟨signatures, ran⟩ := exists_mapM_eq_ok answered
  have last : (ask bytes signer).run ⟨transaction, asked ++ first⟩ =
      (.error (.failure failure), ⟨transaction, asked ++ first ++ [signer]⟩) := by
    rw [run_ask, failed]
    rfl
  rw [List.mapM_append, run_bind_of_ok (run_mapM_ask (mapM_eq_ok_iff.mp ran) asked),
    ← List.append_assoc]
  apply run_bind_of_error
  rw [List.mapM_cons]
  exact run_bind_of_error last

theorem run_forM_put {filled : List (Nat × Signature)} {signatures : List Signature}
    (inside : ∀ entry ∈ filled, entry.1 < signatures.length) :
    (filled.forM put).run ⟨⟨signatures, message⟩, asked⟩ =
      (.ok (), ⟨⟨place signatures filled, message⟩, asked⟩) := by
  induction filled generalizing signatures with
  | nil => rfl
  | cons entry filled ih =>
      obtain ⟨entryInside, inside⟩ := List.forall_mem_cons.mp inside
      have first : (put entry).run ⟨⟨signatures, message⟩, asked⟩ =
          (.ok (), ⟨⟨signatures.set entry.1 entry.2, message⟩, asked⟩) := by
        change (if entry.1 < signatures.length then _ else _ : InPlace Unit).run _ = _
        rw [if_pos entryInside]
        rfl
      change (put entry >>= fun _ => filled.forM put).run _ = _
      rw [run_bind_of_ok first, ih (by simpa using inside)]
      rfl

theorem run_mapM_lookUp_of_slots {slots : List Nat} (looked : signers.mapM
      (fun signer => slotOf transaction.message signer.publicKey) = .ok slots) :
    (signers.mapM lookUp).run ⟨transaction, asked⟩ = (.ok slots, ⟨transaction, asked⟩) := by
  rw [run_mapM_of_reads run_lookUp, looked]
  rfl

theorem run_partialSign_of_written {slots : List Nat} (looked : signers.mapM
      (fun signer => slotOf transaction.message signer.publicKey) = .ok slots)
    (written : transaction.message.encode = .ok bytes) :
    (partialSign signers).run ⟨transaction, asked⟩ = (do
      let signatures ← signers.mapM (ask bytes)
      makeRoom
      (slots.zip signatures).forM put : InPlace Unit).run ⟨transaction, asked⟩ := by
  have writing : writeMessage.run ⟨transaction, asked⟩ = (.ok bytes, ⟨transaction, asked⟩) := by
    rw [run_writeMessage, written]
    rfl
  rw [partialSign, run_bind_of_ok (run_mapM_lookUp_of_slots looked), run_bind_of_ok writing]

theorem run_partialSign_of_refused (refused : transaction.Refused signers failure asked) :
    (partialSign signers).run ⟨transaction, []⟩ =
      (.error (.failure failure), ⟨transaction, asked⟩) := by
  cases refused with
  | @unknownSigner first signer rest split owned foreign =>
      have looked := mapM_eq_error_iff.mpr ⟨first, signer, rest, split,
        fun other member => exists_slotOf_iff.mpr (owned other member), slotOf_of_not_mem foreign⟩
      apply run_bind_of_error
      rw [run_mapM_of_reads run_lookUp, looked]
      rfl
  | unwritten owned written =>
      obtain ⟨slots, looked⟩ := exists_slots owned
      rw [partialSign, run_bind_of_ok (run_mapM_lookUp_of_slots looked)]
      apply run_bind_of_error
      rw [run_writeMessage, written]
      rfl
  | @unanswered bytes first signer rest _ owned written split answered failed =>
      obtain ⟨slots, looked⟩ := exists_slots owned
      rw [run_partialSign_of_written looked written, split]
      exact run_bind_of_error (run_mapM_ask_of_failure answered failed [])

theorem run_partialSign_of_ok (done : transaction.partialSign signers = .ok signed) :
    (partialSign signers).run ⟨transaction, []⟩ = (.ok (), ⟨signed, signers⟩) := by
  obtain ⟨slots, bytes, signatures, looked, written, ran, rfl⟩ := partialSign_eq_ok_iff.mp done
  rw [run_partialSign_of_written looked written,
    run_bind_of_ok (run_mapM_ask (mapM_eq_ok_iff.mp ran) [])]
  refine run_forM_put fun entry member => ?_
  obtain ⟨signer, _, owned, _⟩ := exists_of_mem_zip_mapM looked ran member
  rw [length_resize]
  exact lt_requiredSignatures_of_slotOf owned

end InPlace

theorem partialSign_eq_error_iff : transaction.partialSign signers = .error failure ↔
    ∃ asked, transaction.Refused signers failure asked := by
  constructor
  · exact refused_of_partialSign
  · rintro ⟨asked, refused⟩
    have stopped := InPlace.run_partialSign_of_refused refused
    cases outcome : transaction.partialSign signers with
    | ok signed =>
        rw [InPlace.run_partialSign_of_ok outcome] at stopped
        cases stopped
    | error other =>
        obtain ⟨others, otherRefused⟩ := refused_of_partialSign outcome
        rw [InPlace.run_partialSign_of_refused otherRefused] at stopped
        cases stopped
        rfl

/-- Signing in part either fills every slot that one of the signers owns, or fails for the first
reason there is. Done in place it ends the same, and before a failure it has changed nothing. -/
theorem partialSign_outcome (transaction : Transaction) (signers : List Signer) :
    (∀ signed, transaction.partialSign signers = .ok signed ↔
      ∃ bytes, transaction.SignedBy signers bytes signed) ∧
    (∀ failure, transaction.partialSign signers = .error failure ↔
      ∃ asked, transaction.Refused signers failure asked) ∧
    match transaction.partialSign signers with
    | .ok signed =>
        (InPlace.partialSign signers).run ⟨transaction, []⟩ = (.ok (), ⟨signed, signers⟩)
    | .error failure => ∃ asked, transaction.Refused signers failure asked ∧
        (InPlace.partialSign signers).run ⟨transaction, []⟩ =
          (.error (.failure failure), ⟨transaction, asked⟩) := by
  refine ⟨fun _ => partialSign_eq_ok_iff_signedBy, fun _ => partialSign_eq_error_iff, ?_⟩
  cases outcome : transaction.partialSign signers with
  | ok signed => exact InPlace.run_partialSign_of_ok outcome
  | error failure =>
      obtain ⟨asked, refused⟩ := refused_of_partialSign outcome
      exact ⟨asked, refused, InPlace.run_partialSign_of_refused refused⟩

end LedgerWire.Transaction
