import LedgerWire.Message.Compile
import LedgerWire.Proofs.Outcome
import Mathlib.Data.List.Perm.Basic

/-!
The four classes of privileges, in the order that the header counts them. Sorting keys by class keeps
the order they had inside a class, so it is the same as listing the classes one after another. Keys
that stand class by class behind a header with the right counts get back the privileges they were
ordered by.
-/

namespace LedgerWire

def Privileges.classes : List Privileges :=
  [⟨true, true⟩, ⟨true, false⟩, ⟨false, true⟩, ⟨false, false⟩]

theorem Privileges.pairwise_classes :
    classes.Pairwise fun first second => first.rank < second.rank := by
  decide

theorem Privileges.mem_classes (privileges : Privileges) : privileges ∈ classes := by
  obtain ⟨_ | _, _ | _⟩ := privileges <;> decide

theorem filter_append_filter_not {α : Type} {wanted : α → Bool} {items : List α}
    (inFront : items.Pairwise fun first second => wanted second = true → wanted first = true) :
    items.filter wanted ++ items.filter (fun item => !wanted item) = items := by
  induction items with
  | nil => rfl
  | cons first rest ih =>
      rw [List.pairwise_cons] at inFront
      cases firstWanted : wanted first with
      | true => simp [firstWanted, ih inFront.2]
      | false =>
          have none : ∀ item ∈ rest, wanted item = false := by
            intro item member
            rw [Bool.eq_false_iff]
            intro isWanted
            simp [inFront.1 item member isWanted] at firstWanted
          have without : rest.filter wanted = [] := by simpa using none
          have all : rest.filter (fun item => !wanted item) = rest := by simpa using none
          simp [firstWanted, without, all]

/-- A list that is sorted by class is its classes, one after another. -/
theorem eq_flatMap_filter {classes : List Privileges} {metas : List AccountMeta}
    (increasing : classes.Pairwise fun first second => first.rank < second.rank)
    (sorted : metas.Pairwise fun first second => first.privileges.rank ≤ second.privileges.rank)
    (covered : ∀ account ∈ metas, account.privileges ∈ classes) :
    metas = classes.flatMap fun privileges =>
      metas.filter fun account => account.privileges = privileges := by
  induction classes generalizing metas with
  | nil => exact List.eq_nil_iff_forall_not_mem.mpr fun account member =>
      List.not_mem_nil (covered account member)
  | cons least others ih =>
      rw [List.pairwise_cons] at increasing
      have inFront : metas.Pairwise fun first second =>
          decide (second.privileges = least) = true → decide (first.privileges = least) = true := by
        apply sorted.imp_of_mem
        intro first second member _ inOrder secondLeast
        rw [of_decide_eq_true secondLeast] at inOrder
        rcases List.mem_cons.mp (covered first member) with firstLeast | later
        · exact decide_eq_true firstLeast
        · exact absurd (increasing.1 _ later) (Nat.not_lt.mpr inOrder)
      have later := ih increasing.2 (sorted.filter fun account => !decide (account.privileges = least))
        fun account member => by
          obtain ⟨given, notLeast⟩ := List.mem_filter.mp member
          exact (List.mem_cons.mp (covered account given)).resolve_left (by simpa using notLeast)
      rw [List.flatMap_cons]
      conv_lhs => rw [← filter_append_filter_not inFront, later]
      congr 1
      apply List.flatMap_congr
      intro privileges member
      have notLeast : privileges ≠ least := by
        rintro rfl
        exact Nat.lt_irrefl _ (increasing.1 _ member)
      rw [List.filter_filter]
      apply List.filter_congr
      intro account _
      by_cases inClass : account.privileges = privileges <;> simp [inClass, notLeast]

namespace Message

theorem orderByClass_perm (metas : List AccountMeta) : (orderByClass metas).Perm metas :=
  List.mergeSort_perm metas _

theorem rank_le_trans (first second third : AccountMeta)
    (lower : decide (first.privileges.rank ≤ second.privileges.rank) = true)
    (upper : decide (second.privileges.rank ≤ third.privileges.rank) = true) :
    decide (first.privileges.rank ≤ third.privileges.rank) = true :=
  decide_eq_true (Nat.le_trans (of_decide_eq_true lower) (of_decide_eq_true upper))

theorem rank_le_total (first second : AccountMeta) :
    (decide (first.privileges.rank ≤ second.privileges.rank) ||
      decide (second.privileges.rank ≤ first.privileges.rank)) = true := by
  simpa using Nat.le_total first.privileges.rank second.privileges.rank

theorem pairwise_rank_orderByClass (metas : List AccountMeta) :
    (orderByClass metas).Pairwise fun first second =>
      first.privileges.rank ≤ second.privileges.rank := by
  have sorted : (orderByClass metas).Pairwise fun first second =>
      decide (first.privileges.rank ≤ second.privileges.rank) = true :=
    List.pairwise_mergeSort rank_le_trans rank_le_total metas
  simpa only [decide_eq_true_eq] using sorted

/-- Keys of one class keep their order. -/
theorem filter_orderByClass (metas : List AccountMeta) (privileges : Privileges) :
    ((orderByClass metas).filter fun account => account.privileges = privileges) =
      metas.filter fun account => account.privileges = privileges := by
  have sameRank : (metas.filter fun account => account.privileges = privileges).Pairwise
      fun first second => decide (first.privileges.rank ≤ second.privileges.rank) = true := by
    rw [List.pairwise_filter]
    refine List.pairwise_of_forall fun first second firstIn secondIn => ?_
    rw [of_decide_eq_true firstIn, of_decide_eq_true secondIn]
    exact decide_eq_true (Nat.le_refl _)
  have kept : (metas.filter fun account => account.privileges = privileges).Sublist
      (orderByClass metas) :=
    List.sublist_mergeSort rank_le_trans rank_le_total sameRank List.filter_sublist
  have inClass := kept.filter fun account => decide (account.privileges = privileges)
  simp only [List.filter_filter, Bool.and_self] at inClass
  exact (inClass.eq_of_length ((orderByClass_perm metas).filter _).length_eq.symm).symm

theorem orderByClass_eq_flatMap (metas : List AccountMeta) : orderByClass metas =
    Privileges.classes.flatMap fun privileges =>
      metas.filter fun account => account.privileges = privileges := by
  have sorted := eq_flatMap_filter Privileges.pairwise_classes (pairwise_rank_orderByClass metas)
    fun account _ => Privileges.mem_classes account.privileges
  simpa only [filter_orderByClass] using sorted

theorem orderByClass_eq_filters (metas : List AccountMeta) : orderByClass metas =
    metas.filter (fun account => account.isSigner && account.isWritable) ++
      metas.filter (fun account => account.isSigner && !account.isWritable) ++
      metas.filter (fun account => !account.isSigner && account.isWritable) ++
      metas.filter (fun account => !account.isSigner && !account.isWritable) := by
  simp only [orderByClass_eq_flatMap, Privileges.classes, List.flatMap_cons, List.flatMap_nil,
    AccountMeta.privileges, Privileges.mk.injEq, List.append_nil, List.append_assoc]
  simp [Bool.decide_and]

theorem classCount_eq_ok_iff {accounts : Nat} {count : UInt8} :
    classCount accounts = .ok count ↔ count.toNat = accounts := by
  unfold classCount
  split
  · rename_i fits
    rw [Except.ok.injEq]
    constructor
    · rintro rfl
      rw [UInt8.toNat_ofNat']
      omega
    · rintro rfl
      simp
  · rename_i beyond
    have countBound := count.toNat_lt
    exact iff_of_false (by simp) (by omega)

structure Counts (header : MessageHeader) (metas : List AccountMeta) : Prop where
  requiredSignatures : header.requiredSignatures.toNat = metas.countP AccountMeta.isSigner
  readonlySigned : header.readonlySigned.toNat =
    metas.countP fun account => account.isSigner && !account.isWritable
  readonlyUnsigned : header.readonlyUnsigned.toNat =
    metas.countP fun account => !account.isSigner && !account.isWritable

theorem counts_iff {header : MessageHeader} {metas : List AccountMeta} : Counts header metas ↔
    header.requiredSignatures.toNat = metas.countP AccountMeta.isSigner ∧
    header.readonlySigned.toNat =
      metas.countP (fun account => account.isSigner && !account.isWritable) ∧
    header.readonlyUnsigned.toNat =
      metas.countP fun account => !account.isSigner && !account.isWritable :=
  ⟨fun counts => ⟨counts.requiredSignatures, counts.readonlySigned, counts.readonlyUnsigned⟩,
    fun ⟨required, signed, unsigned⟩ => ⟨required, signed, unsigned⟩⟩

instance (header : MessageHeader) (metas : List AccountMeta) : Decidable (Counts header metas) :=
  decidable_of_iff _ counts_iff.symm

theorem headerOf_eq_ok_iff {metas : List AccountMeta} {header : MessageHeader} :
    headerOf metas = .ok header ↔ Counts header metas := by
  simp only [headerOf, bind_eq_ok_iff, classCount_eq_ok_iff]
  constructor
  · rintro ⟨required, requiredEq, signed, signedEq, unsigned, unsignedEq, made⟩
    cases made
    exact ⟨requiredEq, signedEq, unsignedEq⟩
  · intro counts
    exact ⟨_, counts.requiredSignatures, _, counts.readonlySigned, _, counts.readonlyUnsigned, rfl⟩

def privilegesByPlace (header : MessageHeader) (keyCount : Nat) : List Privileges :=
  let required := header.requiredSignatures.toNat
  let readonlySigned := header.readonlySigned.toNat
  let readonlyUnsigned := header.readonlyUnsigned.toNat
  List.replicate (required - readonlySigned) ⟨true, true⟩ ++
    List.replicate readonlySigned ⟨true, false⟩ ++
    List.replicate (keyCount - required - readonlyUnsigned) ⟨false, true⟩ ++
    List.replicate readonlyUnsigned ⟨false, false⟩

theorem publicKeys_accountMetas (message : Message) :
    message.accountMetas.map AccountMeta.publicKey = message.accountKeys := by
  apply List.ext_getElem
  · simp [accountMetas]
  · intro index _ _
    simp [accountMetas]

theorem privileges_accountMetas {message : Message}
    (readonlySigned : message.header.readonlySigned.toNat ≤ message.requiredSignatures)
    (covered : message.requiredSignatures + message.header.readonlyUnsigned.toNat ≤
      message.accountKeys.length) :
    message.accountMetas.map AccountMeta.privileges =
      privilegesByPlace message.header message.accountKeys.length := by
  unfold requiredSignatures at readonlySigned covered
  apply List.ext_getElem
  · simp only [accountMetas, privilegesByPlace, List.length_map, List.length_mapIdx,
      List.length_append, List.length_replicate]
    omega
  · intro index bound _
    have inside : index < message.accountKeys.length := by simpa [accountMetas] using bound
    simp only [accountMetas, privilegesByPlace, AccountMeta.privileges, List.getElem_map,
      List.getElem_mapIdx, MessageHeader.isSigner, MessageHeader.isWritable, List.getElem_append,
      List.length_append, List.length_replicate, List.getElem_replicate, inside]
    have others : message.header.requiredSignatures.toNat + (message.accountKeys.length -
        message.header.requiredSignatures.toNat - message.header.readonlyUnsigned.toNat) =
          message.accountKeys.length - message.header.readonlyUnsigned.toNat := by omega
    rw [Nat.sub_add_cancel readonlySigned, others]
    by_cases signer : index < message.header.requiredSignatures.toNat
    · have beforeLast : index < message.accountKeys.length -
          message.header.readonlyUnsigned.toNat := by omega
      by_cases writable : index < message.header.requiredSignatures.toNat -
          message.header.readonlySigned.toNat <;> simp [signer, beforeLast, writable]
    · by_cases writable : index < message.accountKeys.length -
          message.header.readonlyUnsigned.toNat <;> simp [signer, writable]

theorem ext_of_privileges {metas others : List AccountMeta}
    (keys : metas.map AccountMeta.publicKey = others.map AccountMeta.publicKey)
    (privileges : metas.map AccountMeta.privileges = others.map AccountMeta.privileges) :
    metas = others := by
  induction metas generalizing others with
  | nil => exact (List.map_eq_nil_iff.mp keys.symm).symm
  | cons first rest ih =>
      cases others with
      | nil => simp at keys
      | cons otherFirst otherRest =>
          simp only [List.map_cons, List.cons.injEq] at keys privileges
          rw [ih keys.2 privileges.2]
          cases first
          cases otherFirst
          simp only [AccountMeta.privileges, Privileges.mk.injEq] at keys privileges
          rw [keys.1, privileges.1.1, privileges.1.2]

theorem map_privileges_filter {metas : List AccountMeta} {wanted : AccountMeta → Bool}
    {privileges : Privileges} (all : ∀ account, wanted account = true →
      account.privileges = privileges) :
    (metas.filter wanted).map AccountMeta.privileges =
      List.replicate (metas.countP wanted) privileges := by
  rw [List.eq_replicate_iff, List.length_map, List.countP_eq_length_filter]
  refine ⟨rfl, fun granted member => ?_⟩
  obtain ⟨account, filtered, rfl⟩ := List.mem_map.mp member
  exact all account (List.mem_filter.mp filtered).2

theorem privileges_orderByClass (metas : List AccountMeta) :
    (orderByClass metas).map AccountMeta.privileges =
      List.replicate (metas.countP fun account => account.isSigner && account.isWritable)
        ⟨true, true⟩ ++
      List.replicate (metas.countP fun account => account.isSigner && !account.isWritable)
        ⟨true, false⟩ ++
      List.replicate (metas.countP fun account => !account.isSigner && account.isWritable)
        ⟨false, true⟩ ++
      List.replicate (metas.countP fun account => !account.isSigner && !account.isWritable)
        ⟨false, false⟩ := by
  simp only [orderByClass_eq_filters, List.map_append]
  congr <;> exact map_privileges_filter (by simp [AccountMeta.privileges])

theorem countP_split (metas : List AccountMeta) (privileged : AccountMeta → Bool) :
    metas.countP privileged =
      (metas.countP fun account => privileged account && account.isWritable) +
        metas.countP fun account => privileged account && !account.isWritable := by
  rw [List.countP_eq_countP_filter_add metas privileged AccountMeta.isWritable]
  simp [List.countP_filter]

theorem Counts.perm {header : MessageHeader} {metas others : List AccountMeta}
    (counts : Counts header metas) (same : metas.Perm others) : Counts header others where
  requiredSignatures := by rw [counts.requiredSignatures, same.countP_eq]
  readonlySigned := by rw [counts.readonlySigned, same.countP_eq]
  readonlyUnsigned := by rw [counts.readonlyUnsigned, same.countP_eq]

theorem Counts.readonlySigned_le {header : MessageHeader} {metas : List AccountMeta}
    (counts : Counts header metas) :
    header.readonlySigned.toNat ≤ header.requiredSignatures.toNat := by
  have signers := countP_split metas AccountMeta.isSigner
  rw [counts.requiredSignatures, counts.readonlySigned]
  omega

theorem length_eq_classes (metas : List AccountMeta) :
    metas.length = metas.countP AccountMeta.isSigner +
      ((metas.countP fun account => !account.isSigner && account.isWritable) +
        metas.countP fun account => !account.isSigner && !account.isWritable) := by
  have all : metas.length = metas.countP AccountMeta.isSigner +
      metas.countP fun account => !account.isSigner := by
    rw [List.length_eq_countP_add_countP AccountMeta.isSigner]
    simp
  rw [all, countP_split metas fun account => !account.isSigner]

theorem Counts.covered_le {header : MessageHeader} {metas : List AccountMeta}
    (counts : Counts header metas) :
    header.requiredSignatures.toNat + header.readonlyUnsigned.toNat ≤ metas.length := by
  have all := length_eq_classes metas
  rw [counts.requiredSignatures, counts.readonlyUnsigned]
  omega

theorem Counts.privilegesByPlace {header : MessageHeader} {metas : List AccountMeta}
    (counts : Counts header metas) :
    privilegesByPlace header metas.length = (orderByClass metas).map AccountMeta.privileges := by
  have signers := countP_split metas AccountMeta.isSigner
  have all := length_eq_classes metas
  rw [privileges_orderByClass, Message.privilegesByPlace]
  rw [counts.requiredSignatures, counts.readonlySigned, counts.readonlyUnsigned]
  congr 4 <;> omega

/-- A message whose keys stand class by class gives back the privileges that put them there. -/
theorem accountMetas_of_counts {message : Message} {metas : List AccountMeta}
    (keys : message.accountKeys = (orderByClass metas).map AccountMeta.publicKey)
    (counts : Counts message.header metas) : message.accountMetas = orderByClass metas := by
  have size : message.accountKeys.length = metas.length := by
    rw [keys, List.length_map, (orderByClass_perm metas).length_eq]
  apply ext_of_privileges
  · rw [publicKeys_accountMetas, keys]
  · have covered := counts.covered_le
    rw [privileges_accountMetas counts.readonlySigned_le (by rwa [size]), size,
      counts.privilegesByPlace]

end Message

end LedgerWire
