import QuasiDefinite.Proofs.Factor.History
import QuasiDefinite.Proofs.Machine.Unpacked

namespace QuasiDefinite

theorem Settings.bounds_of_validate {α : Type} [Scalar α]
    {settings : Settings α} (valid : settings.validate = .ok ()) :
    Scalar.isFinite settings.dynamicEps = true ∧
      Scalar.lt settings.dynamicEps 0 = false ∧
      Scalar.isFinite settings.dynamicDelta = true ∧
      Scalar.le settings.dynamicDelta 0 = false := by
  rw [Settings.validate] at valid
  dsimp only at valid
  by_cases staticReg :
      (! Scalar.isFinite settings.staticReg ||
        Scalar.lt settings.staticReg 0) = true
  · rw [if_pos staticReg] at valid
    cases valid
  rw [if_neg staticReg] at valid
  by_cases eps : (! Scalar.isFinite settings.dynamicEps ||
      Scalar.lt settings.dynamicEps 0) = true
  · rw [if_pos eps] at valid
    cases valid
  rw [if_neg eps] at valid
  by_cases delta : (! Scalar.isFinite settings.dynamicDelta ||
      Scalar.le settings.dynamicDelta 0) = true
  · rw [if_pos delta] at valid
    cases valid
  simpa [and_assoc] using And.intro eps delta

namespace Machine

open Float.Model (UnpackedFloat)

/-! The side of zero. -/

/-- Above zero; infinity may be. -/
def Positive (number : UnpackedFloat) : Prop :=
  (UnpackedFloat.zero .positive).lt number = true

variable {number bound : UnpackedFloat}

theorem Positive.isNumber (positive : Positive number) :
    number.isNaN = false := by
  cases number with
  | notANumber => cases positive
  | infinity => rfl
  | zero => rfl
  | finite => rfl

theorem positive_of_not_le (isFinite : bound.isFinite = true)
    (nonneg : bound.lt (.zero .positive) = false)
    (isNumber : number.isNaN = false) (above : number.le bound = false) :
    Positive number := by
  cases bound with
  | notANumber => cases isFinite
  | infinity => cases isFinite
  | zero => cases number with
    | notANumber => cases isNumber
    | infinity side => cases side with
      | negative => cases above
      | positive => rfl
    | zero => cases above
    | finite side => cases side with
      | negative => cases above
      | positive => rfl
  | finite side => cases side with
    | negative => cases nonneg
    | positive => cases number with
      | notANumber => cases isNumber
      | infinity side => cases side with
        | negative => cases above
        | positive => rfl
      | zero => cases above
      | finite side => cases side with
        | negative => cases above
        | positive => rfl

theorem positive_of_not_le_zero (isFinite : number.isFinite = true)
    (above : number.le (.zero .positive) = false) : Positive number := by
  refine positive_of_not_le rfl rfl ?_ above
  cases number with
  | notANumber => cases isFinite
  | infinity => rfl
  | zero => rfl
  | finite => rfl

theorem positive_abs_of_not_lt (isNumber : number.isNaN = false)
    (positive : Positive bound) (least : number.abs.lt bound = false) :
    Positive number.abs := by
  cases number with
  | notANumber => cases isNumber
  | infinity => rfl
  | zero => exact absurd positive (ne_true_of_eq_false least)
  | finite => rfl

theorem turn_turn (sign : Sign) (number : UnpackedFloat) :
    turn sign (turn sign number) = number := by
  cases sign with
  | positive => rfl
  | negative => cases number with
    | notANumber => rfl
    | infinity side => cases side <;> rfl
    | zero side => cases side <;> rfl
    | finite side => cases side <;> rfl

theorem isNaN_turn (sign : Sign) (number : UnpackedFloat) :
    (turn sign number).isNaN = number.isNaN := by
  cases sign with
  | positive => rfl
  | negative => cases number <;> rfl

theorem lt_eq (x y : Float) : Scalar.lt x y = (view x).lt (view y) :=
  Bool.decide_eq_true.trans Bool.decide_eq_true

theorem le_eq (x y : Float) : Scalar.le x y = (view x).le (view y) :=
  Bool.decide_eq_true.trans Bool.decide_eq_true

theorem admits_iff (sign : Sign) (x : Float) :
    sign.admits x = true ↔ Positive (turn sign (view x)) := by
  rw [Sign.admits, lt_eq, view_value_mul]
  rfl

variable {settings : Settings Float} {sign : Sign} {raw : Float}

theorem positive_larger (valid : settings.validate = .ok ())
    (isNumber : raw.isNaN = false) :
    Positive (view (Scalar.larger (Scalar.abs raw) settings.dynamicDelta)) := by
  obtain ⟨_, _, isFinite, above⟩ := Settings.bounds_of_validate valid
  rw [le_eq] at above
  have delta : Positive (view settings.dynamicDelta) :=
    positive_of_not_le_zero isFinite above
  rw [Scalar.larger]
  split
  · exact delta
  · next kept =>
    obtain ⟨_, least⟩ := Bool.or_eq_false_iff.mp (Bool.not_eq_true _ ▸ kept)
    rw [lt_eq, view_abs] at least
    rw [view_abs]
    exact positive_abs_of_not_lt isNumber delta least

theorem admits_of_isNumber (valid : settings.validate = .ok ())
    (isNumber : raw.isNaN = false) :
    sign.admits (Pivot.regularize settings sign raw).kept = true := by
  rw [Pivot.regularize, admits_iff]
  split
  · rw [view_value_mul, turn_turn]
    exact positive_larger valid isNumber
  · next above =>
    obtain ⟨isFinite, nonneg, _⟩ := Settings.bounds_of_validate valid
    rw [lt_eq] at nonneg
    rw [le_eq, view_value_mul, Bool.not_eq_true] at above
    exact positive_of_not_le isFinite nonneg
      ((isNaN_turn sign _).trans isNumber) above

theorem regularize_of_isNaN (isNaN : raw.isNaN = true) :
    Pivot.regularize settings sign raw = ⟨raw, raw, false⟩ := by
  have above : Scalar.le (sign.value * raw) settings.dynamicEps = false := by
    have turned : (turn sign (view raw)).isNaN = true :=
      (isNaN_turn sign _).trans isNaN
    rw [le_eq, view_value_mul]
    cases found : turn sign (view raw) with
    | notANumber => rfl
    | infinity => rw [found] at turned; cases turned
    | zero => rw [found] at turned; cases turned
    | finite => rw [found] at turned; cases turned
  rw [Pivot.regularize, above]
  rfl

theorem admits_kept_iff (valid : settings.validate = .ok ()) :
    sign.admits (Pivot.regularize settings sign raw).kept = true ↔
      (Pivot.regularize settings sign raw).kept.isNaN = false := by
  constructor
  · intro admits
    have isNumber := (admits_iff ..).mp admits |>.isNumber
    exact (isNaN_turn sign _).symm.trans isNumber
  · intro isNumber
    refine admits_of_isNumber valid ?_
    cases isNaN : raw.isNaN with
    | false => rfl
    | true =>
        rw [regularize_of_isNaN isNaN] at isNumber
        exact absurd isNaN (ne_true_of_eq_false isNumber)

variable {pattern : Pattern} {signs : Array Sign} {rule : OrderRule}
  {plan : Plan}

/-- After any history, every pivot of a factorization that succeeds lies
strictly on its side of zero, unless it is not a number. -/
theorem admits_iff_isNumber (constructed : pattern.Constructed)
    (made : Plan.make pattern signs rule = .ok (.ok plan))
    (valid : settings.validate = .ok ())
    (history : List (Settings Float × Array Float)) :
    ∃ factor, Factor.replay plan history = .ok factor ∧
      ∀ values, ∃ reply,
        Factor.factorize plan settings values factor = .ok reply ∧
        ∀ summary, reply.result = .ok summary →
          ∀ (k : Nat) (sign : Sign), plan.signs[k]? = some sign →
            ∃ pivot, reply.state.diagonal[k]? = some pivot ∧
              (sign.admits pivot = true ↔ pivot.isNaN = false) := by
  obtain ⟨regular, _⟩ := Plan.make_regular constructed made
  obtain ⟨factor, ran, fits⟩ := Factor.replay_fits regular history
  refine ⟨factor, ran, fun values => ?_⟩
  obtain ⟨reply, replied, _⟩ := fits.factorize_runs regular settings values
  refine ⟨reply, replied, fun summary succeeded k sign found => ?_⟩
  obtain ⟨_, numbers, holds⟩ :=
    Factor.holds_of_factorize regular fits replied succeeded
  have inside : k < plan.size := by
    rw [regular.size_eq, ← regular.signs_size]
    exact (Array.getElem?_eq_some_iff.mp found).1
  refine ⟨_, holds.diagonal k inside, ?_⟩
  rw [holds.solves.pivot k sign inside found]
  exact admits_kept_iff valid

/-- Three rows, each with its own side, of which the last meets both others. -/
def crossing : Plan where
  order := .identity 3
  signs := #[.positive, .negative, .positive]
  pattern := ⟨3, ⟨#[0, 1, 2, 5], #[0, 1, 0, 1, 2]⟩⟩
  slot := #[0, 1, 2, 3, 4]
  parent := #[some 2, some 2, none]
  lower := ⟨#[0, 1, 2, 2], #[2, 2]⟩
  rows := ⟨#[0, 0, 0, 2], #[0, 1]⟩
  slots := #[0, 1]

theorem admits_iff_isNumber_crossing :
    ∃ factor, Factor.replay crossing
        [(Settings.standard, #[1, -1, 1e200, 1e200, 1])] = .ok factor ∧
      ∃ reply, Factor.factorize crossing Settings.standard #[2, -3, 1, 1, 2]
          factor = .ok reply ∧
        ∀ summary, reply.result = .ok summary →
          ∃ pivot, reply.state.diagonal[1]? = some pivot ∧
            (Sign.negative.admits pivot = true ↔ pivot.isNaN = false) := by
  have constructed : Pattern.Constructed
      ⟨3, ⟨#[0, 1, 2, 5], #[0, 1, 0, 1, 2]⟩⟩ :=
    .upper (by cbv : Pattern.ofUpperEntries 3 [(0, 2), (1, 2)] = _)
  have made : Plan.make ⟨3, ⟨#[0, 1, 2, 5], #[0, 1, 0, 1, 2]⟩⟩
      #[.positive, .negative, .positive] .natural = .ok (.ok crossing) := by
    cbv
  have valid : Settings.standard.validate = .ok () := by decide +kernel
  obtain ⟨factor, ran, next⟩ := admits_iff_isNumber constructed made valid
    [(Settings.standard, #[1, -1, 1e200, 1e200, 1])]
  obtain ⟨reply, replied, sides⟩ := next #[2, -3, 1, 1, 2]
  exact ⟨factor, ran, reply, replied,
    fun summary succeeded => sides summary succeeded 1 .negative rfl⟩

/-- It is not true that finite values leave every pivot on its side. Here the
last pivot is reduced to minus infinity by the first row and raised by infinity
by the second. -/
theorem factorize_misses_side :
    ¬ ∀ (pattern : Pattern) (signs : Array Sign) (settings : Settings Float)
        (plan : Plan) (values : Array Float)
        (reply : Reply Float (Factor Float) (Summary Float))
        (summary : Summary Float),
      pattern.Constructed →
      Plan.make pattern signs settings.order = .ok (.ok plan) →
      settings.validate = .ok () → settings.checkFinite = true →
      (∀ value ∈ values, Scalar.isFinite value = true) →
      Factor.factorize plan settings values (.fresh plan) = .ok reply →
      reply.result = .ok summary →
      ∀ (k : Nat) (sign : Sign) (pivot : Float), plan.signs[k]? = some sign →
        reply.state.diagonal[k]? = some pivot → sign.admits pivot = true := by
  intro claim
  have constructed : Pattern.Constructed
      ⟨3, ⟨#[0, 1, 2, 5], #[0, 1, 0, 1, 2]⟩⟩ :=
    .upper (by cbv : Pattern.ofUpperEntries 3 [(0, 2), (1, 2)] = _)
  have made : Plan.make ⟨3, ⟨#[0, 1, 2, 5], #[0, 1, 0, 1, 2]⟩⟩
      #[.positive, .negative, .positive] .natural = .ok (.ok crossing) := by
    cbv
  let settings := { Settings.standard with order := .natural }
  let values : Array Float := #[1, -1, 1e200, 1e200, 1]
  have evaluated :
      (Factor.factorize crossing settings values (.fresh crossing)).toOption.map
        (fun reply => (reply.result.toOption.isSome,
          reply.state.diagonal[2]?.map Sign.positive.admits)) =
        some (true, some false) := by
    decide +kernel
  obtain ⟨reply, ran, shown⟩ := Option.map_eq_some_iff.mp evaluated
  obtain ⟨succeeded, misses⟩ := Prod.mk.inj shown
  obtain ⟨summary, succeeded⟩ := Option.isSome_iff_exists.mp succeeded
  obtain ⟨pivot, here, misses⟩ := Option.map_eq_some_iff.mp misses
  have admits := claim _ _ settings crossing values reply summary constructed
    made (by decide +kernel) rfl (by decide +kernel)
    (Checked.eq_ok_of_toOption ran) (Checked.eq_ok_of_toOption succeeded)
    2 .positive pivot rfl here
  exact absurd admits (ne_true_of_eq_false misses)

end Machine

end QuasiDefinite
