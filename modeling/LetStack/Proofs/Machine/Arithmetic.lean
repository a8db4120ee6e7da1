import LetStack.Machine.Arithmetic

/-!
Arithmetic on integers of any size. It gives the exact result or refuses it, and it takes no operand
for one of another kind.
-/

namespace LetStack

theorem fitsInt_iff {number : Int} :
    fitsInt number = true ↔ -2147483648 ≤ number ∧ number ≤ 2147483647 := by
  simp only [fitsInt, Bool.and_eq_true, decide_eq_true_eq]
  exact Iff.rfl

namespace Operator

/-- What an operation gives where numbers have no bounds. A quotient is cut off toward zero: what it
leaves is smaller than the divisor, and is nothing or has the sign of the dividend. -/
def Exact (left right result : Int) : Operator → Prop
  | add => result = left + right
  | sub => result = left - right
  | mul => result = left * right
  | div => ∃ remainder, left = result * right + remainder ∧ remainder.natAbs < right.natAbs ∧
      (remainder = 0 ∨ remainder.sign = left.sign)

theorem exact_div_iff {left right result : Int} :
    div.Exact left right result ↔ right ≠ 0 ∧ result = left.tdiv right := by
  constructor
  · rintro ⟨remainder, whole, smaller, sign⟩
    have divides : right ≠ 0 := by
      rintro rfl
      exact absurd smaller (Nat.not_lt_zero _)
    refine ⟨divides, ?_⟩
    have shape : remainder + right * result = left := by
      rw [whole, Int.mul_comm right, Int.add_comm]
    rcases Int.lt_trichotomy left 0 with negative | rfl | positive
    · have nonpositive : remainder ≤ 0 := by
        rcases sign with rfl | same
        · exact Int.le_refl 0
        · rw [Int.sign_eq_neg_one_of_neg negative, Int.sign_eq_neg_one_iff_neg] at same
          exact Int.le_of_lt same
      have bounds : -(right.natAbs : Int) < remainder ∧ remainder ≤ 0 := ⟨by omega, nonpositive⟩
      exact ((Int.tdiv_tmod_unique' (Int.le_of_lt negative) divides).2 ⟨shape, bounds⟩).1.symm
    · have nothing : remainder = 0 := by simpa using sign
      have bounds : 0 ≤ remainder ∧ remainder < right.natAbs := by omega
      exact ((Int.tdiv_tmod_unique (Int.le_refl 0) divides).2 ⟨shape, bounds⟩).1.symm
    · have nonnegative : 0 ≤ remainder := by
        rcases sign with rfl | same
        · exact Int.le_refl 0
        · rw [Int.sign_eq_one_of_pos positive, Int.sign_eq_one_iff_pos] at same
          exact Int.le_of_lt same
      have bounds : 0 ≤ remainder ∧ remainder < right.natAbs := ⟨nonnegative, by omega⟩
      exact ((Int.tdiv_tmod_unique (Int.le_of_lt positive) divides).2 ⟨shape, bounds⟩).1.symm
  · rintro ⟨divides, rfl⟩
    refine ⟨left.tmod right, (Int.tdiv_mul_add_tmod left right).symm, ?_, ?_⟩
    · rw [Int.natAbs_tmod]
      exact Nat.mod_lt _ (Int.natAbs_pos.2 divides)
    · by_cases evenly : right ∣ left
      · exact Or.inl (Int.tmod_eq_zero_of_dvd evenly)
      · exact Or.inr (by rw [Int.sign_tmod, if_neg evenly])

variable {operator : Operator} {left right : Int}

theorem onInts_ok_iff {result : Int} :
    operator.onInts left right = .ok result ↔ operator.Exact left right result := by
  cases operator with
  | div =>
      rw [exact_div_iff]
      by_cases zero : right = 0
      · simp [onInts, zero]
      · simp [onInts, zero, eq_comm]
  | _ => simp [onInts, Exact, eq_comm]

theorem onInts_error_iff {fault : Fault} : operator.onInts left right = .error fault ↔
    (operator = .div ∧ right = 0) ∧ fault = .divisionByZero := by
  cases operator with
  | div =>
      by_cases zero : right = 0
      · simp [onInts, zero, eq_comm]
      · simp [onInts, zero]
  | _ => simp [onInts]

theorem onFloats_error {left right : Float} {fault : Fault}
    (failed : operator.onFloats left right = .error fault) : fault = .divisionByZero := by
  cases operator with
  | div =>
      by_cases zero : (right == 0) = true
      · simp only [onFloats, zero, if_true, Except.error.injEq] at failed
        exact failed.symm
      · simp [onFloats, zero] at failed
  | _ => simp [onFloats] at failed

theorem exact_unique {first second : Int} (gives : operator.Exact left right first)
    (givesToo : operator.Exact left right second) : first = second := by
  rw [← onInts_ok_iff] at gives givesToo
  exact Except.ok.inj (gives.symm.trans givesToo)

theorem apply_ints_of_exact {result : Int} (gives : operator.Exact left right result) :
    operator.apply (.int left) (.int right) =
      if fitsInt result then .ok (.int result) else .error (.overflow operator left right) := by
  simp only [apply, onInts_ok_iff.2 gives, bind, Except.bind]

theorem apply_ints_of_zero (divides : operator = .div ∧ right = 0) :
    operator.apply (.int left) (.int right) = .error .divisionByZero := by
  have stops : operator.onInts left right = .error .divisionByZero :=
    onInts_error_iff.2 ⟨divides, rfl⟩
  simp only [apply, stops, bind, Except.bind]

theorem zero_or_exact (operator : Operator) (left right : Int) :
    (operator = .div ∧ right = 0) ∨ ∃ result, operator.Exact left right result := by
  cases computed : operator.onInts left right with
  | error fault => exact Or.inl (onInts_error_iff.1 computed).1
  | ok result => exact Or.inr ⟨result, onInts_ok_iff.1 computed⟩

theorem not_exact_of_zero {result : Int} (divides : operator = .div ∧ right = 0) :
    ¬ operator.Exact left right result := by
  obtain ⟨rfl, rfl⟩ := divides
  rintro ⟨_, _, smaller, _⟩
  exact absurd smaller (Nat.not_lt_zero _)

theorem apply_ints_ok_iff {value : Value} : operator.apply (.int left) (.int right) = .ok value ↔
    ∃ result, operator.Exact left right result ∧ fitsInt result = true ∧ value = .int result := by
  rcases zero_or_exact operator left right with divides | ⟨result, gives⟩
  · rw [apply_ints_of_zero divides]
    exact ⟨nofun, fun ⟨_, gives, _⟩ => absurd gives (not_exact_of_zero divides)⟩
  · rw [apply_ints_of_exact gives]
    constructor
    · intro applied
      split at applied
      · rename_i fits
        exact ⟨result, gives, fits, (Except.ok.inj applied).symm⟩
      · cases applied
    · rintro ⟨other, givesToo, fits, rfl⟩
      rw [exact_unique gives givesToo, if_pos fits]

theorem apply_ints_error_iff {fault : Fault} :
    operator.apply (.int left) (.int right) = .error fault ↔
      ((operator = .div ∧ right = 0) ∧ fault = .divisionByZero) ∨
      ∃ result, operator.Exact left right result ∧ ¬ fitsInt result = true ∧
        fault = .overflow operator left right := by
  rcases zero_or_exact operator left right with divides | ⟨result, gives⟩
  · rw [apply_ints_of_zero divides]
    constructor
    · intro failed
      exact Or.inl ⟨divides, (Except.error.inj failed).symm⟩
    · rintro (⟨_, rfl⟩ | ⟨_, gives, _⟩)
      · rfl
      · exact absurd gives (not_exact_of_zero divides)
  · rw [apply_ints_of_exact gives]
    constructor
    · intro failed
      split at failed
      · cases failed
      · rename_i large
        exact Or.inr ⟨result, gives, large, (Except.error.inj failed).symm⟩
    · rintro (⟨divides, _⟩ | ⟨other, givesToo, large, rfl⟩)
      · exact absurd gives (not_exact_of_zero divides)
      · rw [exact_unique gives givesToo, if_neg large]

/-- Of the quotients of numbers that fit only the largest one does not. -/
theorem exact_div_fits_iff {result : Int} (dividend : fitsInt left = true)
    (gives : div.Exact left right result) :
    fitsInt result = true ↔ ¬ (left = -2147483648 ∧ right = -1) := by
  obtain ⟨divides, rfl⟩ := exact_div_iff.1 gives
  rw [fitsInt_iff] at dividend ⊢
  have size : (left.tdiv right).natAbs = left.natAbs / right.natAbs := Int.natAbs_tdiv left right
  constructor
  · rintro fits ⟨rfl, rfl⟩
    exact absurd fits.2 (by decide)
  · intro other
    by_cases unit : right.natAbs = 1
    · rcases Int.natAbs_eq_iff.1 unit with rfl | rfl
      · rwa [show ((1 : Nat) : Int) = 1 from rfl, Int.tdiv_one]
      · rw [show (-((1 : Nat) : Int)) = -1 from rfl, Int.tdiv_neg, Int.tdiv_one]
        omega
    · have halved : left.natAbs / right.natAbs ≤ left.natAbs / 2 :=
        Nat.div_le_div_left (by omega) Nat.two_pos
      omega

theorem apply_operandKinds_iff {left right : Value} :
    operator.apply left right = .error (.operandKinds operator left.kind right.kind) ↔
      ¬ (left.kind = right.kind ∧ (left.kind = "int" ∨ left.kind = "float")) := by
  unfold apply
  split
  · rename_i first second
    refine ⟨fun failed => ?_, fun differ => absurd ⟨rfl, Or.inl rfl⟩ differ⟩
    rcases apply_ints_error_iff.1 failed with ⟨_, impossible⟩ | ⟨_, _, _, impossible⟩ <;>
      cases impossible
  · rename_i first second
    refine ⟨fun failed => ?_, fun differ => absurd ⟨rfl, Or.inr rfl⟩ differ⟩
    cases computed : operator.onFloats first second with
    | ok result => simp [computed, bind, Except.bind] at failed
    | error fault =>
        rw [onFloats_error computed] at computed
        simp [computed, bind, Except.bind] at failed
  · rename_i notInts notFloats
    refine ⟨fun _ => ?_, fun _ => rfl⟩
    rintro ⟨same, numeric⟩
    cases left <;> cases right <;> simp_all [Value.kind]

end Operator

/-- Two integers give the exact result if it fits and are refused otherwise, a zero divisor before
all else; and what is neither two integers nor two floats is refused by the names of its kinds. -/
theorem integers_exact_or_refused :
    (∀ (operator : Operator) (left right : Int) (value : Value),
      operator.apply (.int left) (.int right) = .ok value ↔
        ∃ result, operator.Exact left right result ∧
          (-2147483648 ≤ result ∧ result ≤ 2147483647) ∧ value = .int result) ∧
    (∀ (operator : Operator) (left right : Int) (fault : Fault),
      operator.apply (.int left) (.int right) = .error fault ↔
        ((operator = .div ∧ right = 0) ∧ fault = .divisionByZero) ∨
        ∃ result, operator.Exact left right result ∧
          ¬ (-2147483648 ≤ result ∧ result ≤ 2147483647) ∧
          fault = .overflow operator left right) ∧
    (∀ left right : Int,
      (fitsInt left = true ∧ fitsInt right = true ∧
        Operator.div.apply (.int left) (.int right) = .error (.overflow .div left right)) ↔
      left = -2147483648 ∧ right = -1) ∧
    ∀ (operator : Operator) (left right : Value),
      (operator.apply left right = .error (.operandKinds operator left.kind right.kind) ↔
        ¬ (left.kind = right.kind ∧ (left.kind = "int" ∨ left.kind = "float"))) ∧
      (Fault.operandKinds operator left.kind right.kind).message =
        "Can't " ++ operator.verb ++ " " ++ left.kind ++ " and " ++ right.kind := by
  refine ⟨fun operator left right value => ?_, fun operator left right fault => ?_,
    fun left right => ?_, fun _ _ _ => ⟨Operator.apply_operandKinds_iff, rfl⟩⟩
  · simp only [Operator.apply_ints_ok_iff, fitsInt_iff]
  · simp only [Operator.apply_ints_error_iff, fitsInt_iff]
  · constructor
    · rintro ⟨dividend, _, overflows⟩
      rcases Operator.apply_ints_error_iff.1 overflows with ⟨_, impossible⟩ | ⟨_, gives, large, _⟩
      · cases impossible
      · rwa [Operator.exact_div_fits_iff dividend gives, Decidable.not_not] at large
    · rintro ⟨rfl, rfl⟩
      exact ⟨rfl, rfl, rfl⟩

end LetStack
