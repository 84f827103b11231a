import LedgerWire.Proofs.FullSigning

/-!
Placing signatures that were made elsewhere. What becomes of them depends on two questions only:
whether each has a slot, and whether each slot has one in the end, the last that was given for its
key. So signatures that are given once for each key may come in any order.
-/

namespace LedgerWire.Transaction

open Message (entangledMessage)

variable {message : Message} {given others : List (PublicKey × Signature)}
variable {outcome : Except WireError Transaction} {key : PublicKey} {slot : Nat}

def Supplied (given : List (PublicKey × Signature)) (key : PublicKey) : Prop :=
  ∃ signature, lastFor? Prod.fst key given = some (key, signature) ∧
    signature.isPlaceholder = false

/-- What placing signatures ends in: the first key that owns no slot is named, then the first slot
that is left open, and otherwise each slot holds the last signature for its key. -/
inductive PlacedAs (message : Message) (given : List (PublicKey × Signature)) :
    Except WireError Transaction → Prop where
  | unknownSigner {before after : List (PublicKey × Signature)} {key : PublicKey}
      {signature : Signature} : given = before ++ (key, signature) :: after →
      (∀ pair ∈ before, pair.1 ∈ message.signerKeys) → key ∉ message.signerKeys →
      PlacedAs message given (.error (.unknownSigner key))
  | missingSigner {slot : Nat} {key : PublicKey} : (∀ pair ∈ given, pair.1 ∈ message.signerKeys) →
      message.signerKeys[slot]? = some key → ¬ Supplied given key →
      (∀ earlier < slot, ∀ other, message.signerKeys[earlier]? = some other →
        Supplied given other) →
      PlacedAs message given (.error (.missingSigner slot key))
  | inFull {filled : Transaction} : (∀ pair ∈ given, pair.1 ∈ message.signerKeys) →
      (∀ key ∈ message.signerKeys, Supplied given key) →
      filled.message = message → filled.isFullySigned = true →
      (∀ (slot : Nat) (key : PublicKey), message.signerKeys[slot]? = some key → ∃ signature,
        lastFor? Prod.fst key given = some (key, signature) ∧
          filled.signatures[slot]? = some signature) →
      PlacedAs message given (.ok filled)

def filledWith (message : Message) (entries : List (Nat × Signature)) : Transaction :=
  ⟨place (unsigned message).signatures entries, message⟩

theorem length_filledWith (message : Message) (entries : List (Nat × Signature)) :
    (filledWith message entries).signatures.length = message.requiredSignatures :=
  (length_place _ _).trans List.length_replicate

theorem exists_entries (known : ∀ pair ∈ given, pair.1 ∈ message.signerKeys) :
    ∃ entries, given.mapM (fun pair => do return (← slotOf message pair.1, pair.2)) =
      .ok entries :=
  exists_mapM_eq_ok fun pair member => exists_entry_iff.mpr (known pair member)

section Looked

variable {entries : List (Nat × Signature)}
  (looked : given.mapM (fun pair => do return (← slotOf message pair.1, pair.2)) = .ok entries)
include looked

theorem mem_signerKeys_of_entries : ∀ pair ∈ given, pair.1 ∈ message.signerKeys :=
  fun _ member => exists_entry_iff.mp (exists_of_mapM_eq_ok looked member)

theorem ofSignatures_of_entries : ofSignatures message given =
    (filledWith message entries).checkComplete >>= fun _ => .ok (filledWith message entries) := by
  rw [ofSignatures_eq, looked]
  rfl

theorem signatures_of_entries (slot : Nat) :
    (entries.filter fun entry => entry.1 == slot).map Prod.snd =
      (given.filter fun pair => message.signerKeys.idxOf? pair.1 == some slot).map Prod.snd := by
  have steps := mapM_eq_ok_iff.mp looked
  clear looked
  induction steps with
  | nil => rfl
  | @cons pair entry _ _ stepped _ ih =>
      obtain ⟨place, owned, made⟩ := bind_eq_ok_iff.mp stepped
      cases made
      rw [List.filter_cons, List.filter_cons, slotOf_eq_ok_iff.mp owned]
      by_cases same : place = slot <;> simp [same, ih]

variable (distinct : message.signerKeys.Nodup)
include distinct

theorem getElem?_filledWith (owner : message.signerKeys[slot]? = some key) :
    (filledWith message entries).signatures[slot]? =
      some (((lastFor? Prod.fst key given).map Prod.snd).getD Signature.placeholder) := by
  have inside := (Message.getElem?_signerKeys_iff.mp owner).1
  rw [filledWith, getElem?_place, getElem?_unsigned inside, signatures_of_entries looked,
    List.getLast?_map, lastFor?_eq_of_nodup distinct owner]
  rfl

theorem filled_iff_supplied (owner : message.signerKeys[slot]? = some key) :
    (filledWith message entries).Filled slot ↔ Supplied given key := by
  have held := getElem?_filledWith looked distinct owner
  cases last : lastFor? Prod.fst key given with
  | none => simp [Filled, Supplied, held, last, isPlaceholder_placeholder]
  | some pair =>
      obtain ⟨other, signature⟩ := pair
      obtain rfl : other = key := owner_of_lastFor? last
      simp [Filled, Supplied, held, last]

theorem complete_filledWith_iff : (filledWith message entries).checkComplete = .ok () ↔
    ∀ key ∈ message.signerKeys, Supplied given key :=
  checkComplete_eq_ok_iff_of_slots fun _ _ => filled_iff_supplied looked distinct

theorem missing_filledWith_iff {failure : WireError} :
    (filledWith message entries).checkComplete = .error failure ↔
      ∃ slot key, message.signerKeys[slot]? = some key ∧ ¬ Supplied given key ∧
        (∀ earlier < slot, ∀ other, message.signerKeys[earlier]? = some other →
          Supplied given other) ∧ failure = .missingSigner slot key :=
  checkComplete_eq_error_iff_of_slots fun _ _ => filled_iff_supplied looked distinct

theorem getElem?_filledWith_of_supplied (supplied : ∀ key ∈ message.signerKeys, Supplied given key)
    (owner : message.signerKeys[slot]? = some key) : ∃ signature,
      lastFor? Prod.fst key given = some (key, signature) ∧
        (filledWith message entries).signatures[slot]? = some signature := by
  obtain ⟨signature, last, _⟩ := supplied key (List.mem_of_getElem? owner)
  refine ⟨signature, last, ?_⟩
  rw [getElem?_filledWith looked distinct owner, last]
  rfl

theorem filledWith_eq {filled : Transaction} (formed : message.WellFormed)
    (sameMessage : filled.message = message)
    (sized : filled.signatures.length = message.requiredSignatures)
    (slots : ∀ (slot : Nat) (key : PublicKey), message.signerKeys[slot]? = some key → ∃ signature,
      lastFor? Prod.fst key given = some (key, signature) ∧
        filled.signatures[slot]? = some signature) :
    filledWith message entries = filled := by
  refine Transaction.ext (List.ext_getElem? fun slot => ?_) sameMessage.symm
  by_cases inside : slot < message.signerKeys.length
  · have owner := List.getElem?_eq_getElem inside
    obtain ⟨signature, last, held⟩ := slots slot _ owner
    rw [getElem?_filledWith looked distinct owner, last, held]
    rfl
  · rw [formed.length_signerKeys, Nat.not_lt] at inside
    rw [List.getElem?_eq_none (by rwa [length_filledWith]), List.getElem?_eq_none (by rwa [sized])]

end Looked

theorem placedAs_ofSignatures (formed : message.WellFormed) :
    PlacedAs message given (ofSignatures message given) := by
  have distinct := formed.nodup_signerKeys
  cases looked : given.mapM fun pair => do return (← slotOf message pair.1, pair.2) with
  | error failure =>
      obtain ⟨before, ⟨key, signature⟩, after, split, stepped, failed⟩ :=
        mapM_eq_error_iff.mp looked
      obtain ⟨foreign, rfl⟩ := entry_eq_error_iff.mp failed
      have known : ∀ pair ∈ before, pair.1 ∈ message.signerKeys :=
        fun pair member => exists_entry_iff.mp (stepped pair member)
      rw [ofSignatures_eq, looked]
      exact .unknownSigner split known foreign
  | ok entries =>
      have known := mem_signerKeys_of_entries looked
      rw [ofSignatures_of_entries looked]
      cases checked : (filledWith message entries).checkComplete with
      | error failure =>
          obtain ⟨slot, key, owner, missing, before, rfl⟩ :=
            (missing_filledWith_iff looked distinct).mp checked
          exact .missingSigner known owner missing before
      | ok complete =>
          have supplied := (complete_filledWith_iff looked distinct).mp checked
          have full := (checkComplete_iff_isFullySigned formed (length_filledWith _ _)).mp checked
          exact .inFull known supplied rfl full fun slot key owner =>
            getElem?_filledWith_of_supplied looked distinct supplied owner

theorem PlacedAs.eq_ofSignatures (formed : message.WellFormed)
    (placed : PlacedAs message given outcome) : ofSignatures message given = outcome := by
  have distinct := formed.nodup_signerKeys
  cases placed with
  | @unknownSigner before after key signature split known foreign =>
      have looked := mapM_eq_error_iff.mpr ⟨before, (key, signature), after, split,
        fun pair member => exists_entry_iff.mpr (known pair member),
        entry_eq_error_iff.mpr ⟨foreign, rfl⟩⟩
      rw [ofSignatures_eq, looked]
      rfl
  | @missingSigner slot key known owner missing before =>
      obtain ⟨entries, looked⟩ := exists_entries known
      rw [ofSignatures_of_entries looked,
        (missing_filledWith_iff looked distinct).mpr ⟨slot, key, owner, missing, before, rfl⟩]
      rfl
  | @inFull filled known supplied sameMessage full slots =>
      obtain ⟨entries, looked⟩ := exists_entries known
      have sized := (isFullySigned_iff.mp full).1
      rw [sameMessage] at sized
      rw [ofSignatures_of_entries looked, (complete_filledWith_iff looked distinct).mpr supplied,
        filledWith_eq looked distinct formed sameMessage sized slots]
      rfl

theorem ofSignatures_eq_iff_placedAs (formed : message.WellFormed) :
    ofSignatures message given = outcome ↔ PlacedAs message given outcome := by
  constructor
  · rintro rfl
    exact placedAs_ofSignatures formed
  · exact PlacedAs.eq_ofSignatures formed

theorem PlacedAs.perm (placed : PlacedAs message given outcome)
    (notUnknown : ∀ key, outcome ≠ .error (.unknownSigner key))
    (distinct : (given.map Prod.fst).Nodup) (same : given.Perm others) :
    PlacedAs message others outcome := by
  have last := lastFor?_perm distinct same
  have supplied (key : PublicKey) : Supplied given key ↔ Supplied others key := by
    simp only [Supplied, last]
  have known (all : ∀ pair ∈ given, pair.1 ∈ message.signerKeys) :
      ∀ pair ∈ others, pair.1 ∈ message.signerKeys :=
    fun pair member => all pair (same.mem_iff.mpr member)
  cases placed with
  | unknownSigner split before foreign => exact absurd rfl (notUnknown _)
  | missingSigner all owner missing before =>
      exact .missingSigner (known all) owner (mt (supplied _).mpr missing)
        fun earlier inside other otherOwner =>
          (supplied other).mp (before earlier inside other otherOwner)
  | inFull all covered sameMessage full slots =>
      refine .inFull (known all) (fun key member => (supplied key).mp (covered key member))
        sameMessage full fun slot key owner => ?_
      rw [← last]
      exact slots slot key owner

theorem ofSignatures_perm (formed : message.WellFormed) (distinct : (given.map Prod.fst).Nodup)
    (same : given.Perm others) (notUnknown : ∀ key, outcome ≠ .error (.unknownSigner key)) :
    ofSignatures message given = outcome ↔ ofSignatures message others = outcome := by
  have distinctOthers : (others.map Prod.fst).Nodup := (same.map _).nodup_iff.mp distinct
  rw [ofSignatures_eq_iff_placedAs formed, ofSignatures_eq_iff_placedAs formed]
  exact ⟨fun placed => placed.perm notUnknown distinct same,
    fun placed => placed.perm notUnknown distinctOthers same.symm⟩

theorem unknownSigner_perm (formed : message.WellFormed) (distinct : (given.map Prod.fst).Nodup)
    (same : given.Perm others)
    (unknown : ∃ key, ofSignatures message given = .error (.unknownSigner key)) :
    ∃ key, ofSignatures message others = .error (.unknownSigner key) := by
  by_contra otherwise
  obtain ⟨key, unknown⟩ := unknown
  have alike := (ofSignatures_perm formed distinct same
    fun other failed => otherwise ⟨other, failed⟩).mpr rfl
  exact otherwise ⟨key, alike.symm.trans unknown⟩

/-- Placing signatures names the first key without a slot, else the first slot without a signature,
and else fills every slot with the last signature for its key. When no key is given twice, every
order fills the slots alike, finds the same slot open, or finds some key that has none. -/
theorem ofSignatures_outcome (checked : message.check = .ok ())
    (given : List (PublicKey × Signature)) :
    (∀ outcome, ofSignatures message given = outcome ↔ PlacedAs message given outcome) ∧
    ∀ others, (given.map Prod.fst).Nodup → given.Perm others →
      (∀ filled, ofSignatures message given = .ok filled ↔
        ofSignatures message others = .ok filled) ∧
      (∀ slot key, ofSignatures message given = .error (.missingSigner slot key) ↔
        ofSignatures message others = .error (.missingSigner slot key)) ∧
      ((∃ key, ofSignatures message given = .error (.unknownSigner key)) ↔
        ∃ key, ofSignatures message others = .error (.unknownSigner key)) := by
  have formed := (Message.check_eq_ok_iff _).mp checked
  refine ⟨fun outcome => ofSignatures_eq_iff_placedAs formed, fun others distinct same => ?_⟩
  have distinctOthers : (others.map Prod.fst).Nodup := (same.map _).nodup_iff.mp distinct
  refine ⟨?_, ?_, unknownSigner_perm formed distinct same,
    unknownSigner_perm formed distinctOthers same.symm⟩
  · intro filled
    exact ofSignatures_perm formed distinct same (by simp)
  · intro slot key
    exact ofSignatures_perm formed distinct same (by simp)

theorem ofSignatures_outcome_entangled :
    let key := FixedBytes.filled .publicKey
    let mark := FixedBytes.filled .signature
    let placesAs := PlacedAs entangledMessage
    let distinct := [(key 6, mark 6), (key 1, mark 1), (key 2, mark 2)]
    entangledMessage.check = .ok () ∧
    placesAs [(key 2, mark 2), (key 6, mark 6), (key 2, mark 7), (key 1, mark 1)]
      (.ok ⟨[mark 1, mark 7, mark 6], entangledMessage⟩) ∧
    placesAs [(key 6, mark 6), (key 2, mark 2), (key 2, .placeholder), (key 1, mark 1)]
      (.error (.missingSigner 1 (key 2))) ∧
    placesAs [(key 1, mark 1), (key 5, mark 5), (key 9, mark 9)]
      (.error (.unknownSigner (key 5))) ∧
    (distinct.map Prod.fst).Nodup ∧ distinct.Perm distinct.reverse ∧
    ofSignatures entangledMessage distinct.reverse =
      .ok ⟨[mark 1, mark 2, mark 6], entangledMessage⟩ := by
  intro key mark placesAs distinct
  have checked : entangledMessage.check = .ok () :=
    (Message.check_eq_ok_iff _).mpr Message.entangled_compiledFrom.wellFormed
  have distinctKeys : (distinct.map Prod.fst).Nodup := by decide +kernel
  have reordered : distinct.Perm distinct.reverse := distinct.reverse_perm.symm
  have inOrder : ofSignatures entangledMessage distinct =
      .ok ⟨[mark 1, mark 2, mark 6], entangledMessage⟩ := by decide +kernel
  refine ⟨checked, ?_, ?_, ?_, distinctKeys, reordered, ?_⟩
  · exact ((ofSignatures_outcome checked _).1 _).mp (by decide +kernel)
  · exact ((ofSignatures_outcome checked _).1 _).mp (by decide +kernel)
  · exact ((ofSignatures_outcome checked _).1 _).mp (by decide +kernel)
  · exact (((ofSignatures_outcome checked distinct).2 _ distinctKeys reordered).1 _).mp inOrder

end LedgerWire.Transaction
