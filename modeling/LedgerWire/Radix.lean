/-!
Positional notation with the most significant digit first. `convert` moves a string of digits from
one base to another and keeps each leading zero as one zero, so that the length of a zero run is not
lost; `convert_convert` says that converting back restores the digits.
-/

namespace LedgerWire.Radix

def value (base : Nat) (digits : List Nat) : Nat :=
  digits.foldl (fun high digit => high * base + digit) 0

/-- The digits of `value` followed by `done`; zero has no digits. -/
def digitsOnto (base : Nat) (baseBound : 2 ≤ base) (value : Nat) (done : List Nat) : List Nat :=
  if value = 0 then done
  else digitsOnto base baseBound (value / base) (value % base :: done)
termination_by value
decreasing_by exact Nat.div_lt_self (by omega) (by omega)

def digits (base : Nat) (baseBound : 2 ≤ base) (value : Nat) : List Nat :=
  digitsOnto base baseBound value []

def convert (source target : Nat) (targetBound : 2 ≤ target) (text : List Nat) : List Nat :=
  text.takeWhile (· == 0) ++ digits target targetBound (value source text)

theorem digitsOnto_eq_append (base : Nat) (baseBound : 2 ≤ base) (value : Nat) (done : List Nat) :
    digitsOnto base baseBound value done = digits base baseBound value ++ done := by
  unfold digits
  induction value using Nat.strongRecOn generalizing done with
  | ind value ih =>
      rw [digitsOnto, digitsOnto.eq_def base baseBound value []]
      by_cases zero : value = 0
      · simp [zero]
      · have smaller : value / base < value := Nat.div_lt_self (by omega) (by omega)
        simp only [zero, if_false]
        rw [ih _ smaller, ih _ smaller [_]]
        simp

@[simp] theorem digits_zero (base : Nat) (baseBound : 2 ≤ base) : digits base baseBound 0 = [] := by
  simp [digits, digitsOnto]

theorem digits_of_ne_zero (base : Nat) (baseBound : 2 ≤ base) (value : Nat) (nonzero : value ≠ 0) :
    digits base baseBound value = digits base baseBound (value / base) ++ [value % base] := by
  rw [digits, digitsOnto, if_neg nonzero, digitsOnto_eq_append]

theorem digits_mul_add (base : Nat) (baseBound : 2 ≤ base) (high low : Nat) (lowBound : low < base)
    (nonzero : high * base + low ≠ 0) :
    digits base baseBound (high * base + low) = digits base baseBound high ++ [low] := by
  have quotient : (high * base + low) / base = high := by
    rw [Nat.mul_comm, Nat.mul_add_div (by omega), Nat.div_eq_of_lt lowBound, Nat.add_zero]
  have remainder : (high * base + low) % base = low := by
    rw [Nat.mul_comm, Nat.mul_add_mod, Nat.mod_eq_of_lt lowBound]
  rw [digits_of_ne_zero base baseBound _ nonzero, quotient, remainder]

theorem digits_lt (base : Nat) (baseBound : 2 ≤ base) (value : Nat) :
    ∀ digit ∈ digits base baseBound value, digit < base := by
  induction value using Nat.strongRecOn with
  | ind value ih =>
      by_cases zero : value = 0
      · simp [zero]
      · have smaller : value / base < value := Nat.div_lt_self (by omega) (by omega)
        rw [digits_of_ne_zero base baseBound value zero]
        intro digit member
        rcases List.mem_append.mp member with earlier | last
        · exact ih _ smaller digit earlier
        · rw [List.mem_singleton.mp last]
          exact Nat.mod_lt _ (by omega)

theorem convert_lt (source target : Nat) (targetBound : 2 ≤ target) (text : List Nat) :
    ∀ digit ∈ convert source target targetBound text, digit < target := by
  intro digit member
  rcases List.mem_append.mp member with leading | high
  · have every := List.all_takeWhile (l := text) (p := (· == 0))
    have zero : digit = 0 := by simpa using List.all_eq_true.mp every digit leading
    omega
  · exact digits_lt target targetBound _ digit high

theorem value_append_singleton (base : Nat) (text : List Nat) (digit : Nat) :
    value base (text ++ [digit]) = value base text * base + digit := by
  simp [value]

theorem value_digits (base : Nat) (baseBound : 2 ≤ base) (number : Nat) :
    value base (digits base baseBound number) = number := by
  induction number using Nat.strongRecOn with
  | ind number ih =>
      by_cases zero : number = 0
      · simp [zero, value]
      · have smaller : number / base < number := Nat.div_lt_self (by omega) (by omega)
        rw [digits_of_ne_zero base baseBound number zero, value_append_singleton, ih _ smaller,
          Nat.mul_comm, Nat.div_add_mod]

theorem value_zeros_append (base : Nat) (zeros text : List Nat) (allZero : ∀ z ∈ zeros, z = 0) :
    value base (zeros ++ text) = value base text := by
  induction zeros with
  | nil => rfl
  | cons first rest ih =>
      have firstZero := allZero first (by simp)
      simpa [value, firstZero] using ih (fun z member => allZero z (by simp [member]))

theorem digits_foldl (base : Nat) (baseBound : 2 ≤ base) (text : List Nat)
    (small : ∀ digit ∈ text, digit < base) (high : Nat) (nonzero : high ≠ 0) :
    digits base baseBound (text.foldl (fun high digit => high * base + digit) high) =
      digits base baseBound high ++ text := by
  induction text generalizing high with
  | nil => simp
  | cons first rest ih =>
      have grown : high * base + first ≠ 0 := by
        have : 0 < high * base := Nat.mul_pos (by omega) (by omega)
        omega
      simp only [List.foldl_cons]
      rw [ih (fun digit member => small digit (by simp [member])) _ grown,
        digits_mul_add base baseBound high first (small first (by simp)) grown]
      simp

theorem zeros_append_digits_value (base : Nat) (baseBound : 2 ≤ base) (text : List Nat)
    (small : ∀ digit ∈ text, digit < base) :
    text.takeWhile (· == 0) ++ digits base baseBound (value base text) = text := by
  induction text with
  | nil => simp [value]
  | cons first rest ih =>
      by_cases zero : first = 0
      · have tail := ih (fun digit member => small digit (by simp [member]))
        simpa [zero, value] using tail
      · have firstSmall := small first (by simp)
        have single : digits base baseBound first = [first] := by
          simpa using digits_mul_add base baseBound 0 first firstSmall (by simpa using zero)
        have tail := digits_foldl base baseBound rest
          (fun digit member => small digit (by simp [member])) first zero
        simp [zero, value, tail, single]

theorem takeWhile_zeros_append_digits (base : Nat) (baseBound : 2 ≤ base) (zeros : List Nat)
    (allZero : ∀ z ∈ zeros, z = 0) (number : Nat) :
    (zeros ++ digits base baseBound number).takeWhile (· == 0) = zeros := by
  have noLeadingZero : ∀ number, (digits base baseBound number).head? ≠ some 0 := by
    intro number
    induction number using Nat.strongRecOn with
    | ind number ih =>
        by_cases zero : number = 0
        · simp [zero]
        · have smaller : number / base < number := Nat.div_lt_self (by omega) (by omega)
          rw [digits_of_ne_zero base baseBound number zero]
          by_cases small : number < base
          · simp [Nat.div_eq_of_lt small, Nat.mod_eq_of_lt small, zero]
          · have highNonzero : number / base ≠ 0 := by
              have := Nat.div_pos (Nat.le_of_not_lt small) (by omega : 0 < base)
              omega
            have nonempty : digits base baseBound (number / base) ≠ [] := by
              rw [digits_of_ne_zero base baseBound _ highNonzero]
              simp
            have higher := ih _ smaller
            cases shape : digits base baseBound (number / base) with
            | nil => exact absurd shape nonempty
            | cons first rest => simpa [shape] using higher
  induction zeros with
  | nil =>
      have head := noLeadingZero number
      cases shape : digits base baseBound number with
      | nil => rfl
      | cons first rest =>
          rw [shape] at head
          have firstNonzero : first ≠ 0 := by simpa using head
          simp [firstNonzero]
  | cons first rest ih =>
      have firstZero := allZero first (by simp)
      simpa [firstZero] using ih (fun z member => allZero z (by simp [member]))

theorem convert_convert (source target : Nat) (sourceBound : 2 ≤ source) (targetBound : 2 ≤ target)
    (text : List Nat) (small : ∀ digit ∈ text, digit < source) :
    convert target source sourceBound (convert source target targetBound text) = text := by
  have allZero : ∀ z ∈ text.takeWhile (· == 0), z = 0 := by
    intro z member
    have every := List.all_takeWhile (l := text) (p := (· == 0))
    simpa using List.all_eq_true.mp every z member
  unfold convert
  rw [takeWhile_zeros_append_digits target targetBound _ allZero,
    value_zeros_append target _ _ allZero, value_digits]
  exact zeros_append_digits_value source sourceBound text small

end LedgerWire.Radix
