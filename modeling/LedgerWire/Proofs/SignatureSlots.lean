import LedgerWire.Proofs.Outcome
import LedgerWire.Transaction.Signing

/-!
What signing and checking do to the slots of a transaction. The message is never touched, and after
a signature has been placed there are as many slots as it requires. All that is asked of the signers
is their keys and their answers to the bytes of the message.
-/

namespace LedgerWire.Transaction

variable {transaction signed : Transaction} {signers others : List Signer} {bytes : Bytes}
variable {message : Message} {key : PublicKey} {slot : Nat} {failure : WireError}

theorem length_resize (signatures : List Signature) (count : Nat) :
    (resize signatures count).length = count := by
  simp only [resize, List.length_append, List.length_take, List.length_replicate]
  omega

theorem length_place (signatures : List Signature) (filled : List (Nat × Signature)) :
    (place signatures filled).length = signatures.length := by
  induction filled generalizing signatures with
  | nil => rfl
  | cons first rest ih =>
      rw [place, List.foldl_cons]
      exact (ih _).trans (List.length_set ..)

/-- The last signature given for a slot counts, and a slot that none is given for keeps its own. -/
theorem getElem?_place (signatures : List Signature) (filled : List (Nat × Signature))
    (slot : Nat) : (place signatures filled)[slot]? = signatures[slot]?.map fun held =>
      ((filled.filter fun entry => entry.1 == slot).map Prod.snd).getLast?.getD held := by
  induction filled generalizing signatures with
  | nil => simp [place]
  | cons first rest ih =>
      obtain ⟨target, signature⟩ := first
      change (place (signatures.set target signature) rest)[slot]? = _
      rw [ih, List.getElem?_set]
      by_cases same : target = slot
      · subst target
        by_cases inside : slot < signatures.length
        · simp [inside, List.getLast?_cons]
        · simp [inside]
      · simp [same]

theorem mem_or_getElem?_of_place {signatures : List Signature} {filled : List (Nat × Signature)}
    {signature : Signature} (found : (place signatures filled)[slot]? = some signature) :
    (slot, signature) ∈ filled ∨ signatures[slot]? = some signature := by
  rw [getElem?_place, Option.map_eq_some_iff] at found
  obtain ⟨held, kept, chosen⟩ := found
  cases last : ((filled.filter fun entry => entry.1 == slot).map Prod.snd).getLast? with
  | none =>
      rw [last] at chosen
      exact .inr (kept.trans (congrArg some chosen))
  | some given =>
      rw [last] at chosen
      obtain rfl : given = signature := chosen
      obtain ⟨entry, chosenEntry, rfl⟩ := List.mem_map.mp (List.mem_of_getLast? last)
      obtain ⟨member, same⟩ := List.mem_filter.mp chosenEntry
      obtain rfl : entry.1 = slot := by simpa using same
      exact .inl member

theorem isPlaceholder_placeholder : Signature.placeholder.isPlaceholder = true :=
  (FixedBytes.isZero_iff _).mpr rfl

theorem getElem?_resize (signatures : List Signature) {count : Nat} (inside : slot < count) :
    (resize signatures count)[slot]? = some (signatures[slot]?.getD Signature.placeholder) := by
  rw [resize, List.getElem?_append, List.length_take]
  by_cases held : slot < signatures.length
  · rw [if_pos (by omega), List.getElem?_take_of_lt inside, List.getElem?_eq_getElem held]
    rfl
  · rw [if_neg (by omega), List.getElem?_replicate, if_pos (by omega),
      List.getElem?_eq_none (Nat.not_lt.mp held)]
    rfl

theorem getElem?_of_resize {signatures : List Signature} {count : Nat} {signature : Signature}
    (found : (resize signatures count)[slot]? = some signature)
    (filled : signature.isPlaceholder = false) : signatures[slot]? = some signature := by
  have inside : slot < count := by
    have within := (List.getElem?_eq_some_iff.mp found).1
    rwa [length_resize] at within
  rw [getElem?_resize signatures inside, Option.some.injEq] at found
  cases held : signatures[slot]? with
  | some kept => rw [← found, held, Option.getD_some]
  | none =>
      rw [held, Option.getD_none] at found
      rw [← found, isPlaceholder_placeholder] at filled
      cases filled

theorem getElem?_unsigned (inside : slot < message.requiredSignatures) :
    (unsigned message).signatures[slot]? = some Signature.placeholder :=
  List.getElem?_replicate_of_lt inside

theorem getElem?_of_slotOf (owned : slotOf message key = .ok slot) :
    message.signerKeys[slot]? = some key := by
  unfold slotOf at owned
  split at owned
  · rename_i found
    cases owned
    obtain ⟨inside, same, _⟩ := List.findIdx?_eq_some_iff_getElem.mp found
    rw [List.getElem?_eq_getElem inside, eq_of_beq same]
  · cases owned

theorem unknownSigner_of_slotOf (failed : slotOf message key = .error failure) :
    key ∉ message.signerKeys ∧ failure = .unknownSigner key := by
  unfold slotOf at failed
  split at failed
  · cases failed
  · rename_i absent
    cases failed
    refine ⟨fun member => ?_, rfl⟩
    simpa using List.findIdx?_eq_none_iff.mp absent key member

theorem slotOf_eq_ok_iff : slotOf message key = .ok slot ↔
    message.signerKeys.idxOf? key = some slot := by
  rw [slotOf, ← List.idxOf?]
  cases message.signerKeys.idxOf? key <;> simp

theorem slotOf_of_not_mem (foreign : key ∉ message.signerKeys) :
    slotOf message key = .error (.unknownSigner key) := by
  cases looked : slotOf message key with
  | ok slot => exact absurd (List.mem_of_getElem? (getElem?_of_slotOf looked)) foreign
  | error failure => rw [(unknownSigner_of_slotOf looked).2]

theorem slotOf_eq_error_iff : slotOf message key = .error failure ↔
    key ∉ message.signerKeys ∧ failure = .unknownSigner key := by
  constructor
  · exact unknownSigner_of_slotOf
  · rintro ⟨foreign, rfl⟩
    exact slotOf_of_not_mem foreign

theorem exists_slotOf_iff : (∃ slot, slotOf message key = .ok slot) ↔ key ∈ message.signerKeys := by
  constructor
  · rintro ⟨slot, owned⟩
    exact List.mem_of_getElem? (getElem?_of_slotOf owned)
  · intro member
    cases looked : slotOf message key with
    | ok slot => exact ⟨slot, rfl⟩
    | error failure => exact absurd member (unknownSigner_of_slotOf looked).1

theorem lt_requiredSignatures_of_slotOf (owned : slotOf message key = .ok slot) :
    slot < message.requiredSignatures := by
  have inside := (List.getElem?_eq_some_iff.mp (getElem?_of_slotOf owned)).1
  exact Nat.lt_of_lt_of_le inside (List.length_take_le _ _)

def Filled (transaction : Transaction) (slot : Nat) : Prop :=
  ∃ signature, transaction.signatures[slot]? = some signature ∧ signature.isPlaceholder = false

theorem not_filled_iff : ¬ transaction.Filled slot ↔
    (match transaction.signatures[slot]? with
    | some signature => signature.isPlaceholder
    | none => true) = true := by
  cases held : transaction.signatures[slot]? <;> simp [Filled, held]

theorem missingSigner_of_checkComplete (failed : transaction.checkComplete = .error failure) :
    ∃ slot key, transaction.message.signerKeys[slot]? = some key ∧ ¬ transaction.Filled slot ∧
      (∀ earlier < slot, transaction.Filled earlier) ∧ failure = .missingSigner slot key := by
  unfold checkComplete at failed
  dsimp only at failed
  split at failed
  · rename_i key slot missing
    cases failed
    obtain ⟨empty, place, bound, found, before⟩ := List.find?_eq_some_iff_getElem.mp missing
    rw [List.length_zipIdx] at bound
    rw [List.getElem_zipIdx, Nat.zero_add, Prod.mk.injEq] at found
    obtain ⟨rfl, rfl⟩ := found
    refine ⟨place, _, List.getElem?_eq_getElem bound, not_filled_iff.mpr empty, ?_, rfl⟩
    intro earlier inside
    have full := before earlier inside
    rw [List.getElem_zipIdx, Nat.zero_add, Bool.not_eq_true'] at full
    by_contra missing
    exact Bool.eq_false_iff.mp full (not_filled_iff.mp missing)
  · cases failed

theorem checkComplete_eq_ok_iff : transaction.checkComplete = .ok () ↔
    ∀ slot < transaction.message.signerKeys.length, transaction.Filled slot := by
  cases checked : transaction.checkComplete with
  | error failure =>
      refine iff_of_false (by simp) fun all => ?_
      obtain ⟨slot, key, owner, empty, _⟩ := missingSigner_of_checkComplete checked
      exact empty (all slot (List.getElem?_eq_some_iff.mp owner).1)
  | ok done =>
      refine iff_of_true rfl fun slot inside => ?_
      unfold checkComplete at checked
      dsimp only at checked
      split at checked
      · cases checked
      · rename_i nothing
        have owner := List.mk_mem_zipIdx_iff_getElem?.mpr (List.getElem?_eq_getElem inside)
        by_contra missing
        exact List.find?_eq_none.mp nothing _ owner (not_filled_iff.mp missing)

theorem checkComplete_eq_error_iff : transaction.checkComplete = .error failure ↔
    ∃ slot key, transaction.message.signerKeys[slot]? = some key ∧ ¬ transaction.Filled slot ∧
      (∀ earlier < slot, transaction.Filled earlier) ∧ failure = .missingSigner slot key := by
  constructor
  · exact missingSigner_of_checkComplete
  · rintro ⟨slot, key, owner, empty, before, rfl⟩
    cases checked : transaction.checkComplete with
    | ok done =>
        have inside := (List.getElem?_eq_some_iff.mp owner).1
        exact absurd (checkComplete_eq_ok_iff.mp checked slot inside) empty
    | error failure =>
        obtain ⟨other, otherKey, otherOwner, otherEmpty, otherBefore, rfl⟩ :=
          missingSigner_of_checkComplete checked
        have notBefore := mt (before other) otherEmpty
        have notAfter := mt (otherBefore slot) empty
        obtain rfl : slot = other := by omega
        rw [owner, Option.some.injEq] at otherOwner
        rw [otherOwner]

section BySlots

variable {holds : PublicKey → Prop} (bySlot : ∀ (slot : Nat) (key : PublicKey),
  transaction.message.signerKeys[slot]? = some key → (transaction.Filled slot ↔ holds key))
include bySlot

theorem checkComplete_eq_ok_iff_of_slots : transaction.checkComplete = .ok () ↔
    ∀ key ∈ transaction.message.signerKeys, holds key := by
  rw [checkComplete_eq_ok_iff]
  constructor
  · intro filled key member
    obtain ⟨slot, owner⟩ := List.mem_iff_getElem?.mp member
    exact (bySlot slot key owner).mp (filled slot (List.getElem?_eq_some_iff.mp owner).1)
  · intro all slot inside
    have owner := List.getElem?_eq_getElem inside
    exact (bySlot slot _ owner).mpr (all _ (List.mem_of_getElem? owner))

theorem checkComplete_eq_error_iff_of_slots : transaction.checkComplete = .error failure ↔
    ∃ slot key, transaction.message.signerKeys[slot]? = some key ∧ ¬ holds key ∧
      (∀ earlier < slot, ∀ other, transaction.message.signerKeys[earlier]? = some other →
        holds other) ∧ failure = .missingSigner slot key := by
  rw [checkComplete_eq_error_iff]
  refine exists_congr fun slot => exists_congr fun key => and_congr_right fun owner => ?_
  rw [bySlot slot key owner]
  refine and_congr_right fun _ => and_congr_left fun _ => forall₂_congr fun earlier before => ?_
  have bound := Nat.lt_trans before (List.getElem?_eq_some_iff.mp owner).1
  have earlierOwner := List.getElem?_eq_getElem bound
  rw [bySlot earlier _ earlierOwner, earlierOwner]
  simp

end BySlots

theorem isFullySigned_iff : transaction.isFullySigned = true ↔
    transaction.signatures.length = transaction.message.requiredSignatures ∧
      ∀ slot < transaction.message.requiredSignatures, transaction.Filled slot := by
  simp only [isFullySigned, Bool.and_eq_true, beq_iff_eq, List.all_eq_true, Bool.not_eq_true']
  refine and_congr_right fun size => ?_
  constructor
  · intro filled slot inside
    have bound : slot < transaction.signatures.length := by omega
    exact ⟨_, List.getElem?_eq_getElem bound, filled _ (List.getElem_mem bound)⟩
  · intro filled signature member
    obtain ⟨slot, bound, rfl⟩ := List.mem_iff_getElem.mp member
    obtain ⟨_, held, full⟩ := filled slot (by omega)
    rw [List.getElem?_eq_getElem bound] at held
    cases held
    exact full

theorem partialSign_eq_ok_iff : transaction.partialSign signers = .ok signed ↔
    ∃ slots bytes signatures,
      signers.mapM (fun signer => slotOf transaction.message signer.publicKey) = .ok slots ∧
      transaction.message.encode = .ok bytes ∧
      signers.mapM (fun signer => signer.sign bytes) = .ok signatures ∧
      signed = ⟨place (resize transaction.signatures transaction.message.requiredSignatures)
        (slots.zip signatures), transaction.message⟩ := by
  simp only [partialSign, bind_eq_ok_iff]
  constructor
  · rintro ⟨slots, owned, bytes, written, signatures, answered, made⟩
    cases made
    exact ⟨slots, bytes, signatures, owned, written, answered, rfl⟩
  · rintro ⟨slots, bytes, signatures, owned, written, answered, rfl⟩
    exact ⟨slots, owned, bytes, written, signatures, answered, rfl⟩

theorem message_of_partialSign (done : transaction.partialSign signers = .ok signed) :
    signed.message = transaction.message := by
  obtain ⟨_, _, _, _, _, _, rfl⟩ := partialSign_eq_ok_iff.mp done
  rfl

theorem length_signatures_of_partialSign (done : transaction.partialSign signers = .ok signed) :
    signed.signatures.length = transaction.message.requiredSignatures := by
  obtain ⟨_, _, _, _, _, _, rfl⟩ := partialSign_eq_ok_iff.mp done
  rw [length_place, length_resize]

section Building

variable {instructions : List Instruction} {feePayer : PublicKey} {recentBlockhash : Hash}

theorem build_of_compile
    (compiled : Message.compile instructions feePayer recentBlockhash = .ok message) :
    build instructions feePayer recentBlockhash signers =
      (unsigned message).partialSign signers >>= fun transaction =>
        transaction.checkComplete >>= fun _ => .ok transaction := by
  rw [build, compiled]
  dsimp only [bind, Except.bind, sign]
  cases (unsigned message).partialSign signers <;> rfl

theorem build_eq_ok_iff : build instructions feePayer recentBlockhash signers = .ok signed ↔
    ∃ message, Message.compile instructions feePayer recentBlockhash = .ok message ∧
      (unsigned message).partialSign signers = .ok signed ∧ signed.checkComplete = .ok () := by
  cases compiled : Message.compile instructions feePayer recentBlockhash with
  | error failure =>
      rw [build, compiled]
      simp [bind, Except.bind]
  | ok message =>
      simp only [build_of_compile compiled, bind_eq_ok_iff, Except.ok.injEq, exists_eq_left']
      constructor
      · rintro ⟨_, placed, _, complete, rfl⟩
        exact ⟨placed, complete⟩
      · rintro ⟨placed, complete⟩
        exact ⟨signed, placed, (), complete, rfl⟩

end Building

-- The message keeps its keys while slots are filled, so all of them can be looked up beforehand.
theorem foldlM_accept (transaction : Transaction) (given : List (PublicKey × Signature)) :
    given.foldlM (fun filled (key, signature) => filled.accept key signature) transaction =
      (given.mapM fun pair => do return (← slotOf transaction.message pair.1, pair.2)) >>=
        fun filled => .ok ⟨place transaction.signatures filled, transaction.message⟩ := by
  induction given generalizing transaction with
  | nil => rfl
  | cons first rest ih =>
      obtain ⟨key, signature⟩ := first
      rw [List.foldlM_cons, List.mapM_cons]
      dsimp only
      cases owned : slotOf transaction.message key with
      | error failure =>
          rw [accept, owned]
          rfl
      | ok slot =>
          rw [accept, owned]
          change List.foldlM _ (⟨transaction.signatures.set slot signature, transaction.message⟩ :
            Transaction) rest = _
          rw [ih]
          cases rest.mapM fun pair => do return (← slotOf transaction.message pair.1, pair.2) <;> rfl

theorem ofSignatures_eq (message : Message) (given : List (PublicKey × Signature)) :
    ofSignatures message given =
      (given.mapM fun pair => do return (← slotOf message pair.1, pair.2)) >>= fun filled =>
        let transaction : Transaction := ⟨place (unsigned message).signatures filled, message⟩
        transaction.checkComplete >>= fun _ => .ok transaction := by
  rw [ofSignatures, foldlM_accept]
  dsimp only [unsigned]
  cases given.mapM fun pair => do return (← slotOf message pair.1, pair.2) <;> rfl

theorem exists_entry_iff {pair : PublicKey × Signature} :
    (∃ entry, (do return (← slotOf message pair.1, pair.2) :
      Except WireError (Nat × Signature)) = .ok entry) ↔ pair.1 ∈ message.signerKeys := by
  rw [← exists_slotOf_iff]
  cases slotOf message pair.1 with
  | ok slot => exact iff_of_true ⟨_, rfl⟩ ⟨slot, rfl⟩
  | error failure => simp [bind, Except.bind]

theorem entry_eq_error_iff {pair : PublicKey × Signature} {failure : WireError} :
    (do return (← slotOf message pair.1, pair.2) : Except WireError (Nat × Signature)) =
      .error failure ↔ pair.1 ∉ message.signerKeys ∧ failure = .unknownSigner pair.1 := by
  rw [← slotOf_eq_error_iff]
  cases slotOf message pair.1 with
  | ok slot => simp [bind, Except.bind, pure, Except.pure]
  | error failure => simp [bind, Except.bind]

theorem ofSignatures_eq_ok_iff {given : List (PublicKey × Signature)} :
    ofSignatures message given = .ok signed ↔
      ∃ filled, given.mapM (fun pair => do return (← slotOf message pair.1, pair.2)) = .ok filled ∧
        signed = ⟨place (unsigned message).signatures filled, message⟩ ∧
        signed.checkComplete = .ok () := by
  simp only [ofSignatures_eq, bind_eq_ok_iff]
  refine exists_congr fun filled => and_congr_right fun _ => ?_
  constructor
  · rintro ⟨_, complete, made⟩
    cases made
    exact ⟨rfl, complete⟩
  · rintro ⟨rfl, complete⟩
    exact ⟨(), complete, rfl⟩

/-- The same keys, and the same answers to these bytes. -/
structure AnswerAlike (bytes : Bytes) (signers others : List Signer) : Prop where
  publicKeys : signers.map Signer.publicKey = others.map Signer.publicKey
  answers : signers.map (fun signer => signer.sign bytes) =
    others.map fun signer => signer.sign bytes

theorem partialSign_congr (written : transaction.message.encode = .ok bytes)
    (alike : AnswerAlike bytes signers others) :
    transaction.partialSign signers = transaction.partialSign others := by
  have slots (list : List Signer) :
      list.mapM (fun signer => slotOf transaction.message signer.publicKey) =
        (list.map Signer.publicKey).mapM (slotOf transaction.message) := by
    rw [List.mapM_map]
    rfl
  have answers (list : List Signer) : list.mapM (fun signer => signer.sign bytes) =
      (list.map fun signer => signer.sign bytes).mapM id := by
    rw [List.mapM_map]
    rfl
  simp only [partialSign, written, slots, alike.publicKeys]
  simp only [bind, Except.bind, answers, alike.answers]

/-- Every slot that is filled holds a signature of these bytes by the key that owns the slot. -/
def SignedOver (transaction : Transaction) (bytes : Bytes) : Prop :=
  ∀ (slot : Nat) (signature : Signature) (key : PublicKey),
    transaction.signatures[slot]? = some signature →
    transaction.message.signerKeys[slot]? = some key → signature.isPlaceholder = false →
      signature.verifies key bytes = true

theorem find?_slots_eq_none_iff {wrong : (Signature × PublicKey) × Nat → Bool}
    {signatures : List Signature} {keys : List PublicKey} :
    (signatures.zip keys).zipIdx.find? wrong = none ↔
      ∀ (slot : Nat) (signature : Signature) (key : PublicKey), signatures[slot]? = some signature →
        keys[slot]? = some key → wrong ((signature, key), slot) = false := by
  rw [List.find?_eq_none]
  constructor
  · intro noneWrong slot signature key held owner
    have placed : ((signature, key), slot) ∈ (signatures.zip keys).zipIdx := by
      rw [List.mk_mem_zipIdx_iff_getElem?, List.getElem?_zip_eq_some]
      exact ⟨held, owner⟩
    simpa using noneWrong _ placed
  · rintro right ⟨⟨signature, key⟩, slot⟩ placed
    rw [List.mk_mem_zipIdx_iff_getElem?, List.getElem?_zip_eq_some] at placed
    simpa using right slot signature key placed.1 placed.2

theorem verify_eq_ok_iff : transaction.verify = .ok () ↔
    ∃ bytes, transaction.message.encode = .ok bytes ∧ transaction.SignedOver bytes := by
  simp only [verify, bind_eq_ok_iff]
  refine exists_congr fun bytes => and_congr_right fun _ => ?_
  split
  · rename_i bad
    refine iff_of_false (by simp [throw, throwThe, MonadExceptOf.throw]) fun signed => ?_
    rw [find?_slots_eq_none_iff.mpr] at bad
    · cases bad
    · intro slot signature key held owner
      cases filled : signature.isPlaceholder with
      | true => rfl
      | false => simp [signed slot signature key held owner filled]
  · rename_i nothingBad
    refine iff_of_true rfl fun slot signature key held owner filled => ?_
    have right := find?_slots_eq_none_iff.mp nothingBad slot signature key held owner
    simpa [filled] using right

end LedgerWire.Transaction
