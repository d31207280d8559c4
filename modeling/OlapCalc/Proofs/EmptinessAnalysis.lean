import OlapCalc.Eval.Core
import OlapCalc.Cube.Presets

/-!
The emptiness analysis of calculated measures.

A native request that drops empty rows filters on the stored data of one measure. For a
calculated measure on the context the analysis (`FormulaCheck.emptinessMeasure`) names the
stored measure the calculated one is empty together with: a reference to a measure, or an `IIf`
whose two branches follow one stored measure, the condition left free. What it names is always
a stored measure, so a request can read it.

The analysis does not look at the condition, while the interpreted cell evaluates it: a
condition that raises a cell error makes the cell an error, and an error counts as a value,
so the cell is not empty where the stored measure's is.
-/

namespace OlapCalc.FormulaCheck

theorem emptiness_stored : ∀ fuel,
    (∀ depth m s, memberEmptiness fuel depth m = some s → s.isStoredMeasure = true) ∧
    (∀ depth e s, expEmptiness fuel depth e = some s → s.isStoredMeasure = true) := by
  intro fuel
  induction fuel with
  | zero =>
    refine ⟨fun _ _ _ h => ?_, fun _ _ _ h => ?_⟩
    . simp [memberEmptiness] at h
    . simp [expEmptiness] at h
  | succ fuel ih =>
    refine ⟨fun depth m s h => ?_, fun depth e s h => ?_⟩
    . -- a stored measure names itself, a calculated one what its formula follows
      unfold memberEmptiness at h
      split at h
      . cases h
        assumption
      . split at h
        . split at h
          . cases h
          . exact ih.2 _ _ _ h
        . cases h
    . unfold expEmptiness at h
      split at h
      . split at h
        . exact ih.1 _ _ _ h
        . cases h
      . -- an `IIf`: both branches name the same measure
        split at h
        . simp only [Option.bind_eq_bind, Option.bind_eq_some_iff] at h
          obtain ⟨a, ha, b, -, hab⟩ := h
          split at hab
          . cases hab
            exact ih.2 _ _ _ ha
          . cases hab
        . cases h
      . cases h

theorem emptinessMeasure_stored {m s : Member} (h : emptinessMeasure m = .ok s) :
    s.isStoredMeasure = true := by
  unfold emptinessMeasure at h
  split at h
  . cases h
    assumption
  . split at h
    . split at h
      . cases h
        exact (emptiness_stored _).2 _ _ _ (by assumption)
      . cases h
    . cases h

/-- A condition that raises a cell error. On the sales cube, the calculated measure
`IIf(1 / ([Measures].[Units] + 0) > 0, [Measures].[Units], [Measures].[Units])` follows
`[Measures].[Units]` for the analysis, yet at Portland, which has no sales, its cell is a
division by zero, not empty, while the cell of `[Measures].[Units]` is empty. -/
theorem emptiness_measure_ignores_condition_errors :
    let units : Member := .measure 0 "Units" .sum 1
    let guarded : Member := .calculatedMeasure 0 "C"
      (.call "IIf" .function
        [.call ">" .operator [.call "/" .operator [.literal (.integer 1),
            .call "+" .operator [.member units, .literal (.integer 0)]], .literal (.integer 0)],
          .member units, .member units]) 0
    (emptinessMeasure guarded).toOption.map (·.uniqueName) = some units.uniqueName ∧
    (Presets.sales.toOption.bind fun cube =>
      (cube.resolve? "[Store].[All].[OR].[Portland]").map fun portland =>
        let env : Env := ⟨cube, .builtins, {}, false, false⟩
        let placed := fun m => (Context.initial cube).setTuple [portland, m]
        ((((env.isEmptyCell evalFuel : EvalAt Bool).run (placed guarded)).run.run {}).1.toOption,
          (((env.isEmptyCell evalFuel : EvalAt Bool).run (placed units)).run.run {}).1.toOption)) =
      some (some false, some true) := by
  decide +kernel

end OlapCalc.FormulaCheck
