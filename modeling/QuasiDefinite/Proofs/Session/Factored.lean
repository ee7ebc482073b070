import QuasiDefinite.Proofs.Exact.SaddlePoint
import QuasiDefinite.Proofs.Session.Solve

namespace QuasiDefinite

open Matrix

variable {K : Type} [ExactField K]

namespace Session

/-- The session holds the factorization of the values. -/
structure Factored (session : Session K) (pattern : Pattern)
    (signs : Array Sign) (settings : Settings K) (values : Array K)
    (numbers : Numbers K) : Prop where
  fits : session.Fits pattern signs
  settings_eq : session.settings = settings
  listed : session.plan.order.order = settings.order.listing pattern
  signs_size : signs.size = pattern.size
  validated : settings.validate = .ok ()
  holds : session.factor.Holds session.plan settings values numbers

variable {session : Session K} {pattern : Pattern} {signs : Array Sign}
  {settings : Settings K} {values : Array K} {numbers : Numbers K}

theorem factored_of_factorize {events : List (Event K)}
    (constructed : pattern.Constructed)
    (started : start pattern signs settings = .ok (.ok (session, events)))
    (calls : List (Call K)) :
    ∃ before, session.run calls = .ok before ∧
      ∀ values, values.size = pattern.slotCount →
        ∃ next numbers, before.factorize values = .ok
            ⟨.ok next.factor.summary, next,
              next.factor.summary.events (Factor.pivotsOf next.plan numbers)⟩ ∧
          next.Factored pattern signs settings values numbers := by
  obtain ⟨validated, signs_size, _, settings_eq, listed, fits⟩ :=
    start_fits constructed started
  obtain ⟨before, ran, fitsBefore, keeps⟩ := run_runs fits calls
  refine ⟨before, ran, fun values values_size => ?_⟩
  obtain ⟨reply, counters, replied, factored, fitsNew⟩ :=
    factorize_runs fitsBefore values
  obtain ⟨new, numbers, ran', holds⟩ := Factor.factorize_runs
    fitsBefore.regular fitsBefore.factor
    (values_size.trans fitsBefore.regular.relabels.slotCount_eq.symm)
    (Factor.rejected_exact before.settings values)
  cases replied.symm.trans ran'
  rw [keeps.settings, settings_eq] at holds
  rw [← keeps.plan] at listed
  exact ⟨{ before with factor := new, counters }, numbers, factored,
    { fits := ⟨fitsBefore.regular, fitsNew, fitsBefore.space⟩
      settings_eq := keeps.settings.trans settings_eq
      listed, signs_size, validated, holds }⟩

namespace Factored

theorem of_answers {later : Session K}
    (factored : session.Factored pattern signs settings values numbers)
    (answers : session.Answers later pattern signs) :
    later.Factored pattern signs settings values numbers := by
  have holds := factored.holds
  rw [← answers.factor, ← answers.keeps.plan] at holds
  exact { factored with
    fits := answers.fits
    settings_eq := answers.keeps.settings.trans factored.settings_eq
    listed := answers.keeps.plan ▸ factored.listed
    holds }

theorem ask_runs
    (factored : session.Factored pattern signs settings values numbers)
    (queries : List (Query K)) : ∃ later, session.ask queries = .ok later ∧
      later.Factored pattern signs settings values numbers := by
  obtain ⟨later, ran, answers⟩ := Session.ask_runs factored.fits queries
  exact ⟨later, ran, factored.of_answers answers⟩

theorem decomposes
    (factored : session.Factored pattern signs settings values numbers) :
    session.factor.Decomposes session.plan pattern signs settings values
      fun k => numbers.move k :=
  factored.holds.decomposes factored.fits.regular factored.signs_size
    factored.validated

theorem accounts
    (factored : session.Factored pattern signs settings values numbers) :
    session.factor.summary.Accounts settings
      (fun k : Fin pattern.size => sideAt signs session.plan.order.order k)
      (fun k => session.factor.pivotAt k) fun k => numbers.move k :=
  factored.holds.accounts factored.fits.regular factored.signs_size

theorem exists_shifts
    (factored : session.Factored pattern signs settings values numbers) :
    ∃ shift : Fin pattern.size → K,
      Shifts session.plan.order.order signs settings
        (fun k => numbers.move k) shift :=
  QuasiDefinite.exists_shifts factored.fits.regular.valid signs settings _

theorem solve_runs
    (factored : session.Factored pattern signs settings values numbers)
    {shift : Fin pattern.size → K}
    (shifts : Shifts session.plan.order.order signs settings
      (fun k => numbers.move k) shift)
    {rhs : Array K} (rhs_size : rhs.size = pattern.size) :
    ∃ x next, session.solve rhs = .ok ⟨.ok x, next, []⟩ ∧
      x.size = pattern.size ∧
      OnlySolution (pattern.dense values + Matrix.diagonal shift)
        (components pattern.size rhs) (components pattern.size x) := by
  have regular := factored.fits.regular
  obtain ⟨x, next, b, z, solved, x_size, substitutes, ordered⟩ :=
    solve_of_size factored.fits (rhs_size.trans regular.size_eq.symm)
  exact ⟨x, next, solved, x_size.trans regular.size_eq,
    factored.holds.solution regular factored.signs_size factored.validated
      shifts substitutes ordered⟩

end Factored

/-- The values are factored as they are, without a pivot lifted, a warning or a
line in a log, and whatever is asked, every right hand side is then solved for
without an error. -/
def SolvesUnshifted (session : Session K) (values : Array K) {size : Nat}
    (A : Matrix (Fin size) (Fin size) K) : Prop :=
  ∃ summary next, session.factorize values = .ok ⟨.ok summary, next, []⟩ ∧
    summary.lifted = 0 ∧ summary.warning = none ∧
    ∀ queries, ∃ later, next.ask queries = .ok later ∧
      ∀ rhs, rhs.size = size → ∃ x last,
        later.solve rhs = .ok ⟨.ok x, last, []⟩ ∧ x.size = size ∧
          OnlySolution A (components size rhs) (components size x)

theorem solvesUnshifted_of_saddlePoint {events : List (Event K)}
    (constructed : pattern.Constructed)
    (started : start pattern signs settings = .ok (.ok (session, events)))
    (unshifted : settings.Unshifted)
    (values_size : values.size = pattern.slotCount)
    (saddle : SaddlePoint (pattern.dense values) (signAt signs))
    (calls : List (Call K)) : ∃ before, session.run calls = .ok before ∧
      before.SolvesUnshifted values (pattern.dense values) := by
  obtain ⟨before, ran, factors⟩ :=
    factored_of_factorize constructed started calls
  obtain ⟨next, numbers, replied, factored⟩ := factors values values_size
  have valid := factored.fits.regular.valid
  have natural : next.plan.order.order = .range pattern.size := by
    rw [factored.listed, unshifted.natural]
    rfl
  have unlifted := factored.decomposes.unlifted_of_saddlePoint valid natural
    factored.validated unshifted saddle factored.accounts
  have still := factored.decomposes.moves_eq_zero factored.accounts
    unlifted.lifted
  have counted :
      (Factor.pivotsOf next.plan numbers).countP Pivot.lifted = 0 := by
    rw [← unlifted.lifted, factored.holds.summary]
    rfl
  rw [Factor.events_of_unlifted counted unlifted.warning] at replied
  refine ⟨before, ran, _, next, replied, unlifted.lifted, unlifted.warning,
    fun queries => ?_⟩
  obtain ⟨later, asked, factored'⟩ := factored.ask_runs queries
  refine ⟨later, asked, fun rhs rhs_size => ?_⟩
  obtain ⟨shift, shifts⟩ := factored'.exists_shifts
  obtain ⟨x, last, solved, x_size, solution⟩ :=
    factored'.solve_runs shifts rhs_size
  have zero := shifts.eq_zero factored'.fits.regular.valid still
    unshifted.staticReg
  exact ⟨x, last, solved, x_size, solution.of_shift_zero zero⟩

end Session

end QuasiDefinite
