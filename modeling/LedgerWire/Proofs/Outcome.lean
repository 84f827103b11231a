import Mathlib.Data.List.Forall2

/-!
Computations that may fail: a sequence of two that succeeds has a result in between, and a list of
them has a result for each item, or fails at the first item that has none.
-/

namespace LedgerWire

variable {ε α β γ : Type}

theorem bind_eq_ok_iff {first : Except ε α} {next : α → Except ε β} {result : β} :
    first >>= next = .ok result ↔ ∃ middle, first = .ok middle ∧ next middle = .ok result := by
  cases first with
  | error failure => simp [bind, Except.bind]
  | ok middle => simp [bind, Except.bind]

theorem bind_eq_error_iff {first : Except ε α} {next : α → Except ε β} {failure : ε} :
    first >>= next = .error failure ↔
      first = .error failure ∨ ∃ middle, first = .ok middle ∧ next middle = .error failure := by
  cases first with
  | error early => simp [bind, Except.bind]
  | ok middle => simp [bind, Except.bind]

theorem mapM_eq_ok_iff {step : α → Except ε β} {items : List α} {results : List β} :
    items.mapM step = .ok results ↔
      List.Forall₂ (fun item result => step item = .ok result) items results := by
  induction items generalizing results with
  | nil => simp [pure, Except.pure, eq_comm]
  | cons item items ih =>
      simp only [List.mapM_cons, bind_eq_ok_iff, ih, List.forall₂_cons_left_iff]
      constructor
      · rintro ⟨first, stepped, others, rest, made⟩
        cases made
        exact ⟨first, others, stepped, rest, rfl⟩
      · rintro ⟨first, others, stepped, rest, rfl⟩
        exact ⟨first, stepped, others, rest, rfl⟩

theorem mapM_eq_error_iff {step : α → Except ε β} {items : List α} {failure : ε} :
    items.mapM step = .error failure ↔ ∃ before item after, items = before ++ item :: after ∧
      (∀ other ∈ before, ∃ result, step other = .ok result) ∧ step item = .error failure := by
  induction items with
  | nil =>
      constructor
      · intro failed
        cases failed
      · rintro ⟨before, item, after, split, _⟩
        simp at split
  | cons first rest ih =>
      rw [List.mapM_cons]
      constructor
      · intro failed
        cases stepped : step first with
        | error early =>
            rw [stepped] at failed
            cases failed
            exact ⟨[], first, rest, rfl, by simp, stepped⟩
        | ok result =>
            cases others : rest.mapM step with
            | ok results =>
                rw [stepped, others] at failed
                cases failed
            | error later =>
                rw [stepped, others] at failed
                cases failed
                obtain ⟨before, item, after, split, succeeded, failedThere⟩ := ih.mp others
                refine ⟨first :: before, item, after, congrArg _ split, ?_, failedThere⟩
                exact List.forall_mem_cons.mpr ⟨⟨result, stepped⟩, succeeded⟩
      · rintro ⟨before, item, after, split, succeeded, failed⟩
        cases before with
        | nil =>
            cases split
            rw [failed]
            rfl
        | cons other before =>
            cases split
            obtain ⟨⟨result, stepped⟩, succeeded⟩ := List.forall_mem_cons.mp succeeded
            rw [stepped, ih.mpr ⟨before, item, after, rfl, succeeded, failed⟩]
            rfl

theorem exists_of_mapM_eq_error {step : α → Except ε β} {items : List α} {failure : ε}
    (failed : items.mapM step = .error failure) : ∃ item ∈ items, step item = .error failure := by
  obtain ⟨before, item, after, rfl, _, failedThere⟩ := mapM_eq_error_iff.mp failed
  exact ⟨item, by simp, failedThere⟩

theorem exists_mapM_eq_ok {step : α → Except ε β} {items : List α}
    (all : ∀ item ∈ items, ∃ result, step item = .ok result) :
    ∃ results, items.mapM step = .ok results := by
  cases ran : items.mapM step with
  | ok results => exact ⟨results, rfl⟩
  | error failure =>
      obtain ⟨item, member, failed⟩ := exists_of_mapM_eq_error ran
      obtain ⟨result, stepped⟩ := all item member
      rw [stepped] at failed
      cases failed

theorem mapM_eq_ok_map {step : α → Except ε β} {result : α → β} {items : List α}
    (all : ∀ item ∈ items, step item = .ok (result item)) :
    items.mapM step = .ok (items.map result) := by
  rw [mapM_eq_ok_iff, List.forall₂_map_right_iff, List.forall₂_same]
  exact all

/-- Items that are checked part by part are checked as all of their parts are, one after another. -/
theorem mapM_eq_bind_flatMap {δ : Type} {step : α → Except ε β} {parts : α → List γ}
    {check : γ → Except ε δ} {result : α → β}
    (steps : ∀ item, step item = (parts item).mapM check >>= fun _ => .ok (result item))
    (items : List α) : items.mapM step =
      (items.flatMap parts).mapM check >>= fun _ => .ok (items.map result) := by
  induction items with
  | nil => rfl
  | cons item items ih =>
      rw [List.mapM_cons, steps, ih, List.flatMap_cons, List.mapM_append]
      cases (parts item).mapM check with
      | error failure => rfl
      | ok _ => cases (items.flatMap parts).mapM check <;> rfl

theorem mapM_zip {step : α → Except ε β} {items : List α} {others : List γ}
    (size : items.length = others.length) :
    ((items.zip others).mapM fun pair => do return (← step pair.1, pair.2)) =
      items.mapM step >>= fun results => .ok (results.zip others) := by
  induction items generalizing others with
  | nil => rfl
  | cons item items ih =>
      cases others with
      | nil => cases size
      | cons other others =>
          rw [List.zip_cons_cons, List.mapM_cons, List.mapM_cons, ih (Nat.succ.inj size)]
          cases step item with
          | error failure => rfl
          | ok result => cases items.mapM step <;> rfl

theorem exists_of_mem_zip_mapM {first : α → Except ε β} {second : α → Except ε γ}
    {items : List α} {results : List β} {others : List γ} {pair : β × γ}
    (ran : items.mapM first = .ok results) (ranSecond : items.mapM second = .ok others)
    (member : pair ∈ results.zip others) :
    ∃ item ∈ items, first item = .ok pair.1 ∧ second item = .ok pair.2 := by
  rw [mapM_eq_ok_iff] at ran ranSecond
  induction ran generalizing others with
  | nil => cases member
  | @cons item result items results stepped _ ih =>
      cases ranSecond with
      | @cons _ other _ others steppedSecond ranSecond =>
          rcases List.mem_cons.mp member with rfl | later
          · exact ⟨item, List.mem_cons_self, stepped, steppedSecond⟩
          · obtain ⟨found, foundMember, both⟩ := ih ranSecond later
            exact ⟨found, List.mem_cons_of_mem item foundMember, both⟩

theorem exists_mem_congr {related : α → β → Prop} {left : α → Prop} {right : β → Prop}
    {items : List α} {others : List β} (all : List.Forall₂ related items others)
    (same : ∀ item other, related item other → (left item ↔ right other)) :
    (∃ item ∈ items, left item) ↔ ∃ other ∈ others, right other := by
  induction all with
  | nil => simp
  | cons first _ ih => rw [List.exists_mem_cons_iff, List.exists_mem_cons_iff, same _ _ first, ih]

theorem exists_of_mem_forall₂ {related : α → β → Prop} {items : List α} {others : List β}
    (all : List.Forall₂ related items others) {other : β} (member : other ∈ others) :
    ∃ item ∈ items, related item other := by
  induction all with
  | nil => cases member
  | @cons item _ items _ first _ ih =>
      rcases List.mem_cons.mp member with rfl | later
      · exact ⟨item, List.mem_cons_self, first⟩
      · obtain ⟨found, foundMember, relates⟩ := ih later
        exact ⟨found, List.mem_cons_of_mem item foundMember, relates⟩

theorem exists_of_mapM_eq_ok {step : α → Except ε β} {items : List α} {results : List β}
    (ran : items.mapM step = .ok results) {item : α} (member : item ∈ items) :
    ∃ result, step item = .ok result := by
  obtain ⟨result, _, stepped⟩ := exists_of_mem_forall₂ (mapM_eq_ok_iff.mp ran).flip member
  exact ⟨result, stepped⟩

end LedgerWire
