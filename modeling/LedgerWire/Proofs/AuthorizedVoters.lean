import LedgerWire.Account.Vote
import Mathlib.Data.List.Induction
import Mathlib.Logic.ExistsUnique

/-!
Who may vote in an epoch. The entries of an account may stand in any order and repeat an epoch, so
the one that counts is told by its epoch and, among equals, by its place. `entryAt?` finds it in one
pass, and a step of that pass is one more entry at the end.
-/

namespace LedgerWire.VoteAccount

variable {voters : List AuthorizedVoter} {epoch second : UInt64} {index : Nat}
variable {entry voter : AuthorizedVoter}

/-- The epoch of the entry at this place has begun. No other entry has a later one that has begun
too, and none behind it has the same. -/
structure InForce (voters : List AuthorizedVoter) (epoch : UInt64) (index : Nat)
    (entry : AuthorizedVoter) : Prop where
  held : voters[index]? = some entry
  begun : entry.epoch ≤ epoch
  latest : ∀ other ∈ voters, ¬ (entry.epoch < other.epoch ∧ other.epoch ≤ epoch)
  last : ∀ (later : Nat) (other : AuthorizedVoter), index < later → voters[later]? = some other →
    other.epoch ≠ entry.epoch

theorem InForce.epoch_le {other : Nat} {otherEntry : AuthorizedVoter}
    (inForce : InForce voters epoch index entry) (notEarlier : epoch ≤ second)
    (otherInForce : InForce voters second other otherEntry) : entry.epoch ≤ otherEntry.epoch := by
  rw [← UInt64.not_lt]
  intro later
  have begun := UInt64.le_trans inForce.begun notEarlier
  exact otherInForce.latest entry (List.mem_of_getElem? inForce.held) ⟨later, begun⟩

theorem InForce.unique {other : Nat} {otherEntry : AuthorizedVoter}
    (inForce : InForce voters epoch index entry)
    (otherInForce : InForce voters epoch other otherEntry) :
    index = other ∧ entry = otherEntry := by
  have sameEpoch : entry.epoch = otherEntry.epoch :=
    UInt64.le_antisymm (inForce.epoch_le (UInt64.le_refl _) otherInForce)
      (otherInForce.epoch_le (UInt64.le_refl _) inForce)
  rcases Nat.lt_trichotomy index other with before | same | behind
  · exact absurd sameEpoch.symm (inForce.last other otherEntry before otherInForce.held)
  · subst same
    exact ⟨rfl, Option.some.inj (inForce.held.symm.trans otherInForce.held)⟩
  · exact absurd sameEpoch (otherInForce.last index entry behind inForce.held)

theorem InForce.of_le (inForce : InForce voters epoch index entry) (notEarlier : epoch ≤ second)
    (noneBegins : ∀ voter ∈ voters, ¬ (epoch < voter.epoch ∧ voter.epoch ≤ second)) :
    InForce voters second index entry where
  held := inForce.held
  begun := UInt64.le_trans inForce.begun notEarlier
  latest := by
    rintro other member ⟨later, begun⟩
    by_cases already : other.epoch ≤ epoch
    · exact inForce.latest other member ⟨later, already⟩
    · exact noneBegins other member ⟨UInt64.not_le.mp already, begun⟩
  last := inForce.last

theorem InForce.concat (inForce : InForce voters epoch index entry)
    (passed : epoch < voter.epoch ∨ voter.epoch < entry.epoch) :
    InForce (voters ++ [voter]) epoch index entry where
  held := by
    have inside := (List.getElem?_eq_some_iff.mp inForce.held).1
    rw [List.getElem?_append_left inside, inForce.held]
  begun := inForce.begun
  latest := by
    rintro other member ⟨later, begun⟩
    rcases List.mem_append.mp member with earlier | self
    · exact inForce.latest other earlier ⟨later, begun⟩
    · rw [List.mem_singleton.mp self] at later begun
      rcases passed with notBegun | older
      · exact UInt64.not_lt.mpr begun notBegun
      · exact UInt64.lt_asymm older later
  last := by
    intro later other behind held
    rcases Nat.lt_or_ge later voters.length with inside | outside
    · rw [List.getElem?_append_left inside] at held
      exact inForce.last later other behind held
    · rw [List.getElem?_append_right outside] at held
      rw [List.mem_singleton.mp (List.mem_of_getElem? held)]
      rcases passed with notBegun | older
      · exact (UInt64.ne_of_lt (UInt64.lt_of_le_of_lt inForce.begun notBegun)).symm
      · exact UInt64.ne_of_lt older

theorem inForce_concat_self (begun : voter.epoch ≤ epoch)
    (noneLater : ∀ other ∈ voters, ¬ (voter.epoch < other.epoch ∧ other.epoch ≤ epoch)) :
    InForce (voters ++ [voter]) epoch voters.length voter where
  held := List.getElem?_concat_length
  begun := begun
  latest := by
    intro other member
    rcases List.mem_append.mp member with earlier | self
    · exact noneLater other earlier
    · rw [List.mem_singleton.mp self]
      exact fun later => UInt64.lt_irrefl _ later.1
  last := by
    intro later other behind held
    have inside := (List.getElem?_eq_some_iff.mp held).1
    rw [List.length_append, List.length_singleton] at inside
    omega

theorem entryAt?_concat (voters : List AuthorizedVoter) (voter : AuthorizedVoter) (epoch : UInt64) :
    entryAt? (voters ++ [voter]) epoch =
      if epoch < voter.epoch then entryAt? voters epoch
      else
        match entryAt? voters epoch with
        | none => some voter
        | some held => if voter.epoch < held.epoch then entryAt? voters epoch else some voter := by
  rw [entryAt?, List.foldl_append]
  rfl

def Finds (voters : List AuthorizedVoter) (epoch : UInt64) : Option AuthorizedVoter → Prop
  | none => ∀ voter ∈ voters, epoch < voter.epoch
  | some entry => ∃ index, InForce voters epoch index entry

theorem Finds.concat {found : Option AuthorizedVoter} (finds : Finds voters epoch found)
    (begun : voter.epoch ≤ epoch) (notPassed : ∀ held ∈ found, held.epoch ≤ voter.epoch) :
    Finds (voters ++ [voter]) epoch (some voter) := by
  refine ⟨voters.length, inForce_concat_self begun ?_⟩
  rintro other member ⟨later, otherBegun⟩
  cases found with
  | none => exact UInt64.not_lt.mpr otherBegun (finds other member)
  | some held =>
      obtain ⟨index, inForce⟩ := finds
      have notLater := notPassed held rfl
      exact inForce.latest other member ⟨UInt64.lt_of_le_of_lt notLater later, otherBegun⟩

theorem finds_entryAt? (voters : List AuthorizedVoter) (epoch : UInt64) :
    Finds voters epoch (entryAt? voters epoch) := by
  induction voters using List.reverseRecOn with
  | nil => exact List.forall_mem_nil _
  | append_singleton voters voter ih =>
      rw [entryAt?_concat]
      by_cases notBegun : epoch < voter.epoch
      · rw [if_pos notBegun]
        cases found : entryAt? voters epoch with
        | none =>
            rw [found] at ih
            exact List.forall_mem_append.mpr ⟨ih, List.forall_mem_singleton.mpr notBegun⟩
        | some held =>
            rw [found] at ih
            obtain ⟨index, inForce⟩ := ih
            exact ⟨index, inForce.concat (.inl notBegun)⟩
      · have begun := UInt64.not_lt.mp notBegun
        rw [if_neg notBegun]
        cases found : entryAt? voters epoch with
        | none =>
            rw [found] at ih
            exact ih.concat begun (by simp)
        | some held =>
            rw [found] at ih
            by_cases older : voter.epoch < held.epoch
            · obtain ⟨index, inForce⟩ := ih
              simp only [older, if_true]
              exact ⟨index, inForce.concat (.inr older)⟩
            · simp only [older, if_false]
              exact ih.concat begun (by simpa using older)

theorem entryAt?_eq_some_iff :
    entryAt? voters epoch = some entry ↔ ∃ index, InForce voters epoch index entry := by
  have finds := finds_entryAt? voters epoch
  constructor
  · intro found
    rwa [found] at finds
  · rintro ⟨index, inForce⟩
    cases found : entryAt? voters epoch with
    | none =>
        rw [found] at finds
        have notBegun := finds entry (List.mem_of_getElem? inForce.held)
        exact absurd inForce.begun (UInt64.not_le.mpr notBegun)
    | some held =>
        rw [found] at finds
        obtain ⟨other, otherInForce⟩ := finds
        rw [(otherInForce.unique inForce).2]

theorem entryAt?_eq_none_iff :
    entryAt? voters epoch = none ↔ ∀ voter ∈ voters, epoch < voter.epoch := by
  have finds := finds_entryAt? voters epoch
  constructor
  · intro found
    rwa [found] at finds
  · intro noneBegun
    cases found : entryAt? voters epoch with
    | none => rfl
    | some held =>
        obtain ⟨index, inForce⟩ := entryAt?_eq_some_iff.mp found
        have notBegun := noneBegun held (List.mem_of_getElem? inForce.held)
        exact absurd inForce.begun (UInt64.not_le.mpr notBegun)

theorem entryAt?_eq_of_le (notEarlier : epoch ≤ second)
    (noneBegins : ∀ voter ∈ voters, ¬ (epoch < voter.epoch ∧ voter.epoch ≤ second)) :
    entryAt? voters epoch = entryAt? voters second := by
  cases found : entryAt? voters epoch with
  | some entry =>
      obtain ⟨index, inForce⟩ := entryAt?_eq_some_iff.mp found
      exact (entryAt?_eq_some_iff.mpr ⟨index, inForce.of_le notEarlier noneBegins⟩).symm
  | none =>
      symm
      rw [entryAt?_eq_none_iff] at found ⊢
      intro voter member
      rw [← UInt64.not_le]
      exact fun begun => noneBegins voter member ⟨found voter member, begun⟩

variable {account : VoteAccount}

theorem authorizedVoter?_eq_none_iff : account.authorizedVoter? epoch = none ↔
    ∀ voter ∈ account.authorizedVoters, epoch < voter.epoch := by
  rw [authorizedVoter?, Option.map_eq_none_iff, entryAt?_eq_none_iff]

theorem authorizedVoter?_of_inForce (inForce : InForce account.authorizedVoters epoch index entry) :
    account.authorizedVoter? epoch = some entry.publicKey := by
  rw [authorizedVoter?, entryAt?_eq_some_iff.mpr ⟨index, inForce⟩, Option.map_some]

theorem exists_inForce (found : account.authorizedVoter? epoch ≠ none) :
    ∃ index entry, InForce account.authorizedVoters epoch index entry := by
  obtain ⟨key, answer⟩ := Option.ne_none_iff_exists'.mp found
  obtain ⟨entry, chosen, _⟩ := Option.map_eq_some_iff.mp answer
  obtain ⟨index, inForce⟩ := entryAt?_eq_some_iff.mp chosen
  exact ⟨index, entry, inForce⟩

/-- Nobody may vote before the first epoch on record. From then on it is the voter of the one entry
in force, which later epochs replace by later ones and keep while none of theirs begins. -/
theorem authorizedVoter_outcome (account : VoteAccount) :
    (∀ epoch, (account.authorizedVoter? epoch = none ↔
        ∀ voter ∈ account.authorizedVoters, epoch < voter.epoch) ∧
      (account.authorizedVoter? epoch ≠ none →
        ∃! index, ∃ entry, InForce account.authorizedVoters epoch index entry) ∧
      ∀ index entry, InForce account.authorizedVoters epoch index entry →
        account.authorizedVoter? epoch = some entry.publicKey) ∧
    ∀ first second, first ≤ second →
      (account.authorizedVoter? first ≠ none → account.authorizedVoter? second ≠ none) ∧
      (∀ index entry other otherEntry, InForce account.authorizedVoters first index entry →
        InForce account.authorizedVoters second other otherEntry →
          entry.epoch ≤ otherEntry.epoch) ∧
      ((∀ voter ∈ account.authorizedVoters, ¬ (first < voter.epoch ∧ voter.epoch ≤ second)) →
        account.authorizedVoter? first = account.authorizedVoter? second) := by
  constructor
  · intro epoch
    refine ⟨authorizedVoter?_eq_none_iff, ?_, fun _ _ => authorizedVoter?_of_inForce⟩
    intro found
    obtain ⟨index, entry, inForce⟩ := exists_inForce found
    refine ⟨index, ⟨entry, inForce⟩, ?_⟩
    rintro other ⟨otherEntry, otherInForce⟩
    exact (otherInForce.unique inForce).1
  · intro first second notEarlier
    refine ⟨?_, ?_, ?_⟩
    · intro found noneBegun
      obtain ⟨index, entry, inForce⟩ := exists_inForce found
      have notBegun := authorizedVoter?_eq_none_iff.mp noneBegun entry
        (List.mem_of_getElem? inForce.held)
      exact UInt64.not_lt.mpr (UInt64.le_trans inForce.begun notEarlier) notBegun
    · intro index entry other otherEntry inForce otherInForce
      exact inForce.epoch_le notEarlier otherInForce
    · intro noneBegins
      rw [authorizedVoter?, authorizedVoter?, entryAt?_eq_of_le notEarlier noneBegins]

def disordered : VoteAccount where
  layout := .current
  node := .filled .publicKey 1
  authorizedWithdrawer := .filled .publicKey 2
  commission := 7
  votes := []
  rootSlot := none
  authorizedVoters := [⟨7, .filled .publicKey 3⟩, ⟨3, .filled .publicKey 4⟩,
    ⟨7, .filled .publicKey 5⟩, ⟨5, .filled .publicKey 6⟩]
  epochCredits := []
  lastTimestamp := ⟨0, 0⟩

theorem authorizedVoter_outcome_disordered :
    disordered.authorizedVoter? 2 = none ∧
    InForce disordered.authorizedVoters 5 3 ⟨5, .filled .publicKey 6⟩ ∧
    disordered.authorizedVoter? 5 = some (.filled .publicKey 6) ∧
    disordered.authorizedVoter? 6 = some (.filled .publicKey 6) ∧
    InForce disordered.authorizedVoters 8 2 ⟨7, .filled .publicKey 5⟩ ∧
    (∃! index, ∃ entry, InForce disordered.authorizedVoters 8 index entry) ∧
    disordered.authorizedVoter? 8 = some (.filled .publicKey 5) := by
  have early : InForce disordered.authorizedVoters 5 3 ⟨5, .filled .publicKey 6⟩ := by
    refine ⟨rfl, by decide, by decide, ?_⟩
    intro later other behind held
    have inside := (List.getElem?_eq_some_iff.mp held).1
    exact absurd inside (Nat.not_lt.mpr behind)
  have late : InForce disordered.authorizedVoters 8 2 ⟨7, .filled .publicKey 5⟩ := by
    refine ⟨rfl, by decide, by decide, ?_⟩
    intro later other behind held
    have inside : later < 4 := (List.getElem?_eq_some_iff.mp held).1
    obtain rfl : later = 3 := by omega
    cases held
    decide
  obtain ⟨answers, continues⟩ := authorizedVoter_outcome disordered
  obtain ⟨unbegun, _⟩ := answers 2
  obtain ⟨_, one, lateAnswer⟩ := answers 8
  have earlyAnswer := (answers 5).2.2 _ _ early
  obtain ⟨_, _, same⟩ := continues 5 6 (by decide)
  have laterFound := (continues 5 8 (by decide)).1 (by simp [earlyAnswer])
  refine ⟨unbegun.mpr (by decide), early, earlyAnswer, ?_, late, one laterFound,
    lateAnswer _ _ late⟩
  rw [← same (by decide), earlyAnswer]

end LedgerWire.VoteAccount
