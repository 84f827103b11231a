import LedgerWire.Message.Compile
import Mathlib.Data.List.Induction
import Mathlib.Data.List.Nodup
import Std.Data.HashMap.Lemmas

/-!
The key table that the mentions of keys build up: each key once, in order of first mention, with the
union of what its mentions ask for. `Records` is the invariant of adding one mention after another.
-/

namespace LedgerWire

/-- What all the mentions of a key ask for together. -/
def Privileges.grantedBy (mentions : List AccountMeta) (key : PublicKey) : Privileges where
  signer := mentions.any fun mention => mention.publicKey == key && mention.isSigner
  writable := mentions.any fun mention => mention.publicKey == key && mention.isWritable

def mergedMeta (mentions : List AccountMeta) (key : PublicKey) : AccountMeta :=
  let granted := Privileges.grantedBy mentions key
  ⟨key, granted.signer, granted.writable⟩

def mergedMetas (mentions : List AccountMeta) : List AccountMeta :=
  (mentions.map AccountMeta.publicKey).eraseDups.map (mergedMeta mentions)

theorem eraseDups_concat (keys : List PublicKey) (key : PublicKey) :
    (keys ++ [key]).eraseDups =
      if key ∈ keys then keys.eraseDups else keys.eraseDups ++ [key] := by
  rw [List.eraseDups_append]
  by_cases member : key ∈ keys <;> simp [List.removeAll, List.eraseDups_cons, member]

theorem nodup_eraseDups (keys : List PublicKey) : keys.eraseDups.Nodup := by
  induction keys using List.reverseRecOn with
  | nil => simp
  | append_singleton keys key ih =>
      rw [eraseDups_concat]
      by_cases member : key ∈ keys
      · rw [if_pos member]
        exact ih
      · rw [if_neg member, List.nodup_append]
        refine ⟨ih, by simp, fun first firstMember second secondMember same => member ?_⟩
        rw [List.mem_singleton.mp secondMember] at same
        rw [← same]
        exact List.mem_eraseDups.mp firstMember

theorem eraseDups_of_nodup {keys : List PublicKey} (distinct : keys.Nodup) :
    keys.eraseDups = keys := by
  induction keys using List.reverseRecOn with
  | nil => rfl
  | append_singleton keys key ih =>
      have fresh : key ∉ keys := by
        intro member
        exact (List.nodup_append.mp distinct).2.2 key member key (by simp) rfl
      rw [eraseDups_concat, if_neg fresh, ih (List.nodup_append.mp distinct).1]

theorem Privileges.grantedBy_concat (mentions : List AccountMeta) (mention : AccountMeta)
    (key : PublicKey) :
    grantedBy (mentions ++ [mention]) key =
      if mention.publicKey = key then
        (grantedBy mentions key).union ⟨mention.isSigner, mention.isWritable⟩
      else grantedBy mentions key := by
  by_cases same : mention.publicKey = key <;> simp [grantedBy, union, same]

theorem Privileges.grantedBy_of_not_mem {mentions : List AccountMeta} {key : PublicKey}
    (absent : key ∉ mentions.map AccountMeta.publicKey) :
    grantedBy mentions key = ⟨false, false⟩ := by
  have other : ∀ mention ∈ mentions, mention.publicKey ≠ key := by
    intro mention member same
    exact absent (List.mem_map.mpr ⟨mention, member, same⟩)
  simp only [grantedBy, mk.injEq, List.any_eq_false, Bool.and_eq_true, beq_iff_eq, not_and]
  exact ⟨fun mention member same => absurd same (other mention member),
    fun mention member same => absurd same (other mention member)⟩

theorem map_publicKey_eq_self {metas : List AccountMeta} {restore : PublicKey → AccountMeta}
    (restores : ∀ account ∈ metas, restore account.publicKey = account) :
    (metas.map AccountMeta.publicKey).map restore = metas := by
  rw [List.map_map]
  calc metas.map (restore ∘ AccountMeta.publicKey)
      = metas.map id := List.map_congr_left restores
    _ = metas := List.map_id metas

theorem mergedMetas_of_nodup {mentions : List AccountMeta}
    (distinct : (mentions.map AccountMeta.publicKey).Nodup) : mergedMetas mentions = mentions := by
  rw [mergedMetas, eraseDups_of_nodup distinct]
  apply map_publicKey_eq_self
  intro mention member
  have alone (privilege : AccountMeta → Bool) : (mentions.any fun other =>
      other.publicKey == mention.publicKey && privilege other) = privilege mention := by
    rw [Bool.eq_iff_iff, List.any_eq_true]
    constructor
    · rintro ⟨other, otherMember, granted⟩
      rw [Bool.and_eq_true, beq_iff_eq] at granted
      rw [← List.inj_on_of_nodup_map distinct otherMember member granted.1]
      exact granted.2
    · intro granted
      exact ⟨mention, member, by simpa using granted⟩
  simp only [mergedMeta, Privileges.grantedBy, alone]

namespace KeyTable

structure Records (table : KeyTable) (mentions : List AccountMeta) : Prop where
  mentioned : table.mentioned.reverse = (mentions.map AccountMeta.publicKey).eraseDups
  granted : ∀ key, table.granted[key]? =
    if key ∈ mentions.map AccountMeta.publicKey then some (Privileges.grantedBy mentions key)
    else none

theorem records_empty : empty.Records [] where
  mentioned := rfl
  granted := by simp [empty]

theorem Records.add {table : KeyTable} {mentions : List AccountMeta}
    (records : table.Records mentions) (mention : AccountMeta) :
    (table.add mention).Records (mentions ++ [mention]) := by
  have held := records.granted mention.publicKey
  unfold KeyTable.add
  by_cases known : mention.publicKey ∈ mentions.map AccountMeta.publicKey
  · rw [if_pos known] at held
    simp only [held]
    constructor
    · rw [List.map_append, List.map_singleton, eraseDups_concat, if_pos known]
      exact records.mentioned
    · intro key
      rw [Std.HashMap.getElem?_insert, records.granted key, Privileges.grantedBy_concat]
      by_cases same : mention.publicKey = key
      · subst same
        simp
      · simp [same, Ne.symm same]
  · rw [if_neg known] at held
    simp only [held]
    constructor
    · rw [List.map_append, List.map_singleton, eraseDups_concat, if_neg known,
        List.reverse_cons, records.mentioned]
    · intro key
      rw [Std.HashMap.getElem?_insert, records.granted key, Privileges.grantedBy_concat]
      by_cases same : mention.publicKey = key
      · subst same
        simp [Privileges.grantedBy_of_not_mem known, Privileges.union]
      · simp [same, Ne.symm same]

theorem records_ofMentions (mentions : List AccountMeta) :
    (ofMentions mentions).Records mentions := by
  induction mentions using List.reverseRecOn with
  | nil => exact records_empty
  | append_singleton mentions mention ih =>
      rw [ofMentions, List.foldl_concat]
      exact ih.add mention

theorem metas_ofMentions (mentions : List AccountMeta) :
    (ofMentions mentions).metas = mergedMetas mentions := by
  have records := records_ofMentions mentions
  rw [metas, records.mentioned, mergedMetas]
  apply List.map_congr_left
  intro key member
  rw [List.mem_eraseDups] at member
  have held := records.granted key
  rw [if_pos member] at held
  simp [Std.HashMap.getD_eq_getD_getElem?, held, mergedMeta]

end KeyTable

end LedgerWire
