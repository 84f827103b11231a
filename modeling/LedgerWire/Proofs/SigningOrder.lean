import LedgerWire.Proofs.HonestSigning
import LedgerWire.Proofs.PartialSigning

/-!
Signing by several parties. What one of them signs leaves the bytes and the slots of the others as
they were, so it does not matter whether they sign together or one group after another, nor in which
order, as long as no key signs twice. Where a key does sign twice, its last signature counts.
-/

namespace LedgerWire

section ByKey

variable {α : Type} {owner : α → PublicKey} {items others : List α} {key : PublicKey}

def lastFor? (owner : α → PublicKey) (key : PublicKey) (items : List α) : Option α :=
  (items.filter fun item => owner item == key).getLast?

theorem owner_of_lastFor? {item : α} (last : lastFor? owner key items = some item) :
    owner item = key := by
  have chosen := (List.mem_filter.mp (List.mem_of_getLast? last)).2
  exact eq_of_beq chosen

theorem lastFor?_eq_of_nodup {keys : List PublicKey} {slot : Nat} (distinct : keys.Nodup)
    (held : keys[slot]? = some key) (items : List α) :
    lastFor? owner key items =
      (items.filter fun item => keys.idxOf? (owner item) == some slot).getLast? := by
  obtain ⟨inside, rfl⟩ := List.getElem?_eq_some_iff.mp held
  have place (other : PublicKey) : keys.idxOf? other = some slot ↔ other = keys[slot] := by
    constructor
    · intro found
      exact (List.idxOf?_eq_some_iff.mp found).2.1.symm
    · rintro rfl
      refine List.idxOf?_eq_some_iff.mpr ⟨inside, rfl, fun earlier before same => ?_⟩
      have sameSlot := (List.Nodup.getElem_inj_iff distinct).mp same
      omega
  rw [lastFor?]
  congr 2
  funext item
  rw [Bool.eq_iff_iff, beq_iff_eq, beq_iff_eq, place]

theorem filter_eq_of_perm {chosen : α → Bool} (distinct : (items.map owner).Nodup)
    (sameKey : ∀ item other, chosen item = true → chosen other = true → owner item = owner other)
    (same : items.Perm others) : items.filter chosen = others.filter chosen := by
  have reordered := same.filter chosen
  have distinctChosen := (List.filter_sublist (p := chosen)).map owner |>.nodup distinct
  have chosenAll : ∀ item ∈ items.filter chosen, chosen item = true :=
    fun item member => (List.mem_filter.mp member).2
  cases kept : items.filter chosen with
  | nil =>
      rw [kept] at reordered
      exact (List.nil_perm.mp reordered).symm
  | cons first rest =>
      cases rest with
      | nil =>
          rw [kept] at reordered
          exact List.singleton_perm.mp reordered
      | cons second rest =>
          rw [kept] at distinctChosen chosenAll
          have twice : owner first = owner second :=
            sameKey first second (chosenAll first (by simp)) (chosenAll second (by simp))
          simp [twice] at distinctChosen

theorem lastFor?_perm (distinct : (items.map owner).Nodup) (same : items.Perm others)
    (key : PublicKey) : lastFor? owner key items = lastFor? owner key others := by
  rw [lastFor?, lastFor?, filter_eq_of_perm distinct _ same]
  intro first second firstChosen secondChosen
  exact (eq_of_beq firstChosen).trans (eq_of_beq secondChosen).symm

end ByKey

namespace Transaction

open Message (entangledMessage)

variable {transaction between signed : Transaction} {signers others : List Signer} {bytes : Bytes}
variable {message : Message} {slot : Nat}

theorem lastOwner?_append (message : Message) (signers others : List Signer) (slot : Nat) :
    lastOwner? message (signers ++ others) slot =
      (lastOwner? message others slot).or (lastOwner? message signers slot) := by
  rw [lastOwner?, List.filter_append, List.getLast?_append]
  rfl

theorem lastOwner?_perm (distinct : (signers.map Signer.publicKey).Nodup)
    (same : signers.Perm others) (slot : Nat) :
    lastOwner? message signers slot = lastOwner? message others slot := by
  rw [lastOwner?, lastOwner?, filter_eq_of_perm distinct _ same]
  intro first second firstOwns secondOwns
  have firstKey := getElem?_of_slotOf (slotOf_eq_ok_iff.mpr (eq_of_beq firstOwns))
  have secondKey := getElem?_of_slotOf (slotOf_eq_ok_iff.mpr (eq_of_beq secondOwns))
  exact Option.some.inj (firstKey.symm.trans secondKey)

theorem SignedBy.append (first : transaction.SignedBy signers bytes between)
    (second : between.SignedBy others bytes signed) :
    transaction.SignedBy (signers ++ others) bytes signed where
  owned := List.forall_mem_append.mpr ⟨first.owned, first.message ▸ second.owned⟩
  written := first.written
  answered := List.forall_mem_append.mpr ⟨first.answered, second.answered⟩
  message := second.message.trans first.message
  length := by rw [second.length, first.message]
  placed := by
    intro slot signer owner
    rw [lastOwner?_append] at owner
    cases later : lastOwner? transaction.message others slot with
    | some other =>
        rw [later] at owner
        cases owner
        exact second.placed slot signer (by rwa [first.message])
    | none =>
        rw [later] at owner
        obtain ⟨signature, answer, held⟩ := first.placed slot signer owner
        have inside := lt_requiredSignatures_of_slotOf (slotOf_of_lastOwner? owner)
        refine ⟨signature, answer, ?_⟩
        rw [second.kept slot (by rwa [first.message]) (by rwa [first.message]), held]
        rfl
  kept := by
    intro slot inside nobody
    rw [lastOwner?_append, Option.or_eq_none_iff] at nobody
    rw [second.kept slot (by rwa [first.message]) (by rw [first.message]; exact nobody.1),
      first.kept slot inside nobody.2]
    rfl

theorem partialSign_append : transaction.partialSign (signers ++ others) = .ok signed ↔
    ∃ between, transaction.partialSign signers = .ok between ∧
      between.partialSign others = .ok signed := by
  simp only [partialSign_eq_ok_iff_signedBy]
  constructor
  · rintro ⟨bytes, given⟩
    obtain ⟨owned, othersOwned⟩ := List.forall_mem_append.mp given.owned
    obtain ⟨answered, othersAnswered⟩ := List.forall_mem_append.mp given.answered
    obtain ⟨between, _, first⟩ := exists_partialSign owned given.written answered
    obtain ⟨last, _, second⟩ : ∃ last, between.partialSign others = .ok last ∧
        between.SignedBy others bytes last := by
      rw [← first.message] at othersOwned
      exact exists_partialSign othersOwned (by rw [first.message, given.written]) othersAnswered
    rw [given.unique (first.append second)]
    exact ⟨between, ⟨bytes, first⟩, bytes, second⟩
  · rintro ⟨between, ⟨bytes, first⟩, otherBytes, second⟩
    have written := second.written
    rw [first.message, first.written, Except.ok.injEq] at written
    subst written
    exact ⟨bytes, first.append second⟩

theorem SignedBy.perm (given : transaction.SignedBy signers bytes signed)
    (distinct : (signers.map Signer.publicKey).Nodup) (same : signers.Perm others) :
    transaction.SignedBy others bytes signed where
  owned := fun signer member => given.owned signer (same.mem_iff.mpr member)
  written := given.written
  answered := fun signer member => given.answered signer (same.mem_iff.mpr member)
  message := given.message
  length := given.length
  placed := fun slot signer owner =>
    given.placed slot signer ((lastOwner?_perm distinct same slot).trans owner)
  kept := fun slot inside nobody =>
    given.kept slot inside ((lastOwner?_perm distinct same slot).trans nobody)

theorem partialSign_perm (distinct : (signers.map Signer.publicKey).Nodup)
    (same : signers.Perm others) :
    transaction.partialSign signers = .ok signed ↔ transaction.partialSign others = .ok signed := by
  have distinctOthers : (others.map Signer.publicKey).Nodup := (same.map _).nodup_iff.mp distinct
  rw [partialSign_eq_ok_iff_signedBy, partialSign_eq_ok_iff_signedBy]
  exact exists_congr fun bytes =>
    ⟨fun given => given.perm distinct same, fun given => given.perm distinctOthers same.symm⟩

/-- Any number of groups that sign one after another leave what they leave together. -/
theorem foldlM_partialSign {groups : List (List Signer)} (nonempty : groups ≠ []) :
    groups.foldlM partialSign transaction = .ok signed ↔
      transaction.partialSign groups.flatten = .ok signed := by
  induction groups generalizing transaction with
  | nil => exact absurd rfl nonempty
  | cons group rest ih =>
      rw [List.foldlM_cons, bind_eq_ok_iff, List.flatten_cons]
      cases rest with
      | nil => simp [pure, Except.pure]
      | cons next rest =>
          rw [partialSign_append]
          exact exists_congr fun between => and_congr_right fun _ => ih (by simp)

theorem foldlM_partialSign_perm {groups otherGroups : List (List Signer)} (nonempty : groups ≠ [])
    (otherNonempty : otherGroups ≠ [])
    (distinct : (groups.flatten.map Signer.publicKey).Nodup)
    (same : groups.flatten.Perm otherGroups.flatten) :
    groups.foldlM partialSign transaction = .ok signed ↔
      otherGroups.foldlM partialSign transaction = .ok signed := by
  rw [foldlM_partialSign nonempty, foldlM_partialSign otherNonempty, partialSign_perm distinct same]

/-- Signers may sign together or in two groups, and in any order if no key signs twice: it succeeds
the one way if and only if it does the other, and leaves the same transaction. -/
theorem partialSign_regrouped (transaction : Transaction) :
    (∀ (first second : List Signer) (signed : Transaction),
      transaction.partialSign (first ++ second) = .ok signed ↔
        ∃ between, transaction.partialSign first = .ok between ∧
          between.partialSign second = .ok signed) ∧
    ∀ signers others : List Signer, (signers.map Signer.publicKey).Nodup → signers.Perm others →
      ∀ signed : Transaction, transaction.partialSign signers = .ok signed ↔
        transaction.partialSign others = .ok signed := by
  constructor
  · intro first second signed
    exact partialSign_append
  · intro signers others distinct same signed
    exact partialSign_perm distinct same

theorem partialSign_regrouped_entangled :
    let key := FixedBytes.filled .publicKey
    let mark := FixedBytes.filled .signature
    let signs := fun byte => holder (key byte) (mark byte)
    let start := unsigned entangledMessage
    let distinct := [signs 6, signs 2, signs 1]
    start.partialSign [signs 2, signs 1, holder (key 2) (mark 7)] =
      .ok ⟨[mark 1, mark 7, .placeholder], entangledMessage⟩ ∧
    (∃ between, start.partialSign [signs 2] = .ok between ∧
      between.partialSign [signs 1, holder (key 2) (mark 7)] =
        .ok ⟨[mark 1, mark 7, .placeholder], entangledMessage⟩) ∧
    (distinct.map Signer.publicKey).Nodup ∧ distinct.Perm distinct.reverse ∧
    start.partialSign distinct = .ok ⟨[mark 1, mark 2, mark 6], entangledMessage⟩ ∧
    start.partialSign distinct.reverse = .ok ⟨[mark 1, mark 2, mark 6], entangledMessage⟩ := by
  intro key mark signs start distinct
  have together : start.partialSign [signs 2, signs 1, holder (key 2) (mark 7)] =
      .ok ⟨[mark 1, mark 7, .placeholder], entangledMessage⟩ := by decide +kernel
  have inOrder : start.partialSign distinct = .ok ⟨[mark 1, mark 2, mark 6], entangledMessage⟩ := by
    decide +kernel
  have distinctKeys : (distinct.map Signer.publicKey).Nodup := by decide +kernel
  have reordered : distinct.Perm distinct.reverse := distinct.reverse_perm.symm
  obtain ⟨grouping, order⟩ := partialSign_regrouped start
  exact ⟨together, (grouping [signs 2] _ _).mp together, distinctKeys, reordered, inOrder,
    (order distinct _ distinctKeys reordered _).mp inOrder⟩

end Transaction

end LedgerWire
