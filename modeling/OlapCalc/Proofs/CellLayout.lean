import Mathlib
import OlapCalc.Proofs.Ranking
import OlapCalc.Proofs.TupleArity
import OlapCalc.Eval.Query

/-!
Where a query's cells lie, and what pruning empty positions keeps.

The cells of a query are laid out in mixed radix over the axis lengths, axis 0 varying fastest:
`cellPositions` reads the positions off an offset digit by digit (`cellPositions_cons`), and
`cellOffset`, by which `CellSet.cell` finds a cell, writes them back (`cellOffset_cons`). The
two are inverse between the offsets below the product of the lengths and the position vectors
within the axes (`cellOffset_eq_some_iff`).

A query evaluates the cell at each offset in order, with the tuples of the axes at its positions
placed on the context (`Env.queryCells_eq`). Pruning walks the cells once, setting the flag of
each position a non-empty cell lies on (`foldl_markStep`); an axis keeps the positions whose flag
is set (`mem_keptPositions`), and the pruned cell at a vector of kept positions is the original
cell at the positions they stand for (`CellSet.prune_cell`).
-/

namespace OlapCalc

section Radix

theorem foldl_digits : ∀ (lengths pre : List Nat) (offset : Nat),
    (lengths.foldl (fun (acc : List Nat × Nat) len => (acc.1 ++ [acc.2 % len], acc.2 / len))
        (pre, offset)).1 = pre ++ cellPositions lengths offset
  | [], pre, _ => by simp [cellPositions]
  | len :: lengths, pre, offset => by
    simp only [List.foldl_cons, cellPositions]
    rw [foldl_digits lengths, foldl_digits lengths]
    simp

@[simp] theorem cellPositions_nil (offset : Nat) : cellPositions [] offset = [] := rfl

/-- The first position is the offset's last digit in the first radix; the others are read off
the rest. -/
theorem cellPositions_cons (len : Nat) (lengths : List Nat) (offset : Nat) :
    cellPositions (len :: lengths) offset = offset % len :: cellPositions lengths (offset / len) := by
  rw [cellPositions, List.foldl_cons, foldl_digits]
  rfl

@[simp] theorem length_cellPositions : ∀ (lengths : List Nat) (offset : Nat),
    (cellPositions lengths offset).length = lengths.length
  | [], _ => rfl
  | len :: lengths, offset => by
    rw [cellPositions_cons, List.length_cons, length_cellPositions lengths, List.length_cons]

/-- The step of `cellOffset`, without its pattern matches. -/
def offsetStep (acc : Option (Nat × Nat)) (entry : Nat × Nat) : Option (Nat × Nat) :=
  acc.bind fun os => if entry.2 ≥ entry.1 then none else some (os.1 + entry.2 * os.2, os.2 * entry.1)

theorem foldl_offsetStep_none : ∀ l : List (Nat × Nat), l.foldl offsetStep none = none
  | [] => rfl
  | _ :: l => foldl_offsetStep_none l

theorem foldl_offsetStep_some : ∀ (l : List (Nat × Nat)) (offset stride : Nat),
    l.foldl offsetStep (some (offset, stride)) =
      (l.foldl offsetStep (some (0, 1))).map fun r => (offset + stride * r.1, stride * r.2)
  | [], offset, stride => by simp
  | e :: l, offset, stride => by
    simp only [List.foldl_cons, offsetStep, Option.bind_some]
    split_ifs
    . simp [foldl_offsetStep_none]
    . rw [foldl_offsetStep_some l, foldl_offsetStep_some l (0 + e.2 * 1), Option.map_map]
      congr 1
      funext r
      simp only [Function.comp_apply, Prod.mk.injEq]
      constructor <;> ring

theorem cellOffset_eq_walk (lengths positions : List Nat) :
    cellOffset lengths positions =
      if lengths.length = positions.length then
        ((lengths.zip positions).foldl offsetStep (some (0, 1))).map (·.1)
      else none := by
  unfold cellOffset
  simp only [bne_iff_ne, ne_eq, ite_not]
  split_ifs
  . rw [List.foldl_ext (g := offsetStep)]
    intro acc entry _
    rcases acc with _ | ⟨offset, stride⟩ <;> rfl
  . rfl

@[simp] theorem cellOffset_nil : cellOffset [] [] = some 0 := rfl

/-- A position in range is the offset's first digit; the rest of the offset is the offset of
the other positions. -/
theorem cellOffset_cons (len : Nat) (lengths : List Nat) (p : Nat) (positions : List Nat) :
    cellOffset (len :: lengths) (p :: positions) =
      if p < len then (cellOffset lengths positions).map (p + len * ·) else none := by
  rw [cellOffset_eq_walk, cellOffset_eq_walk]
  by_cases hlen : lengths.length = positions.length
  . simp only [List.length_cons, hlen, if_true, List.zip_cons_cons, List.foldl_cons, offsetStep,
      Option.bind_some]
    by_cases hp : p < len
    . rw [if_neg (Nat.not_le.2 hp), if_pos hp, foldl_offsetStep_some, Option.map_map,
        Option.map_map]
      congr 1
      funext r
      simp only [Function.comp_apply]
      ring
    . rw [if_pos (Nat.le_of_not_lt hp), if_neg hp, foldl_offsetStep_none, Option.map_none]
  . simp [hlen]

theorem cellOffset_length_ne {lengths positions : List Nat} (h : lengths.length ≠ positions.length) :
    cellOffset lengths positions = none := by
  rw [cellOffset_eq_walk, if_neg h]

/-- Offsets below the product of the lengths and position vectors within the lengths are in
one-to-one correspondence: an offset's positions are written back to it, and the positions
written to an offset are read off it. -/
theorem cellOffset_eq_some_iff : ∀ (lengths positions : List Nat) (offset : Nat),
    cellOffset lengths positions = some offset ↔
      offset < lengths.prod ∧ cellPositions lengths offset = positions
  | [], [], offset => by
    simp only [cellOffset_nil, Option.some.injEq, List.prod_nil, cellPositions_nil, and_true]
    omega
  | [], _ :: _, offset => by simp [cellOffset_length_ne]
  | _ :: _, [], offset => by simp [cellOffset_length_ne, cellPositions_cons]
  | len :: lengths, p :: positions, offset => by
    rw [cellOffset_cons, cellPositions_cons, List.cons.injEq, List.prod_cons]
    split_ifs with hp
    . rw [Option.map_eq_some_iff]
      constructor
      . rintro ⟨rest, hrest, rfl⟩
        obtain ⟨hlt, hpos⟩ := (cellOffset_eq_some_iff lengths positions rest).1 hrest
        have hdiv : (p + len * rest) / len = rest := by
          rw [Nat.add_mul_div_left _ _ (by omega), Nat.div_eq_of_lt hp, Nat.zero_add]
        refine ⟨?_, by rw [Nat.add_mul_mod_self_left, Nat.mod_eq_of_lt hp], by rw [hdiv, hpos]⟩
        calc p + len * rest < len * (rest + 1) := by rw [Nat.mul_succ]; omega
          _ ≤ len * lengths.prod := Nat.mul_le_mul_left _ hlt
      . rintro ⟨hlt, hmod, hpos⟩
        have hlen : 0 < len := by omega
        refine ⟨offset / len, (cellOffset_eq_some_iff lengths positions _).2 ⟨?_, hpos⟩, ?_⟩
        . exact (Nat.div_lt_iff_lt_mul hlen).2 (by rw [Nat.mul_comm]; exact hlt)
        . rw [← hmod]
          exact Nat.mod_add_div offset len
    . simp only [false_iff, not_and]
      intro hlt hmod
      have hlen : 0 < len := Nat.pos_of_ne_zero fun h0 => by
        rw [h0, Nat.zero_mul] at hlt
        omega
      exact absurd (hmod ▸ Nat.mod_lt offset hlen) hp

theorem cellOffset_cellPositions {lengths : List Nat} {offset : Nat} (h : offset < lengths.prod) :
    cellOffset lengths (cellPositions lengths offset) = some offset :=
  (cellOffset_eq_some_iff _ _ _).2 ⟨h, rfl⟩

theorem cellOffset_isSome_iff : ∀ (lengths positions : List Nat),
    (cellOffset lengths positions).isSome ↔ List.Forall₂ (· < ·) positions lengths
  | [], [] => by simp
  | [], _ :: _ => by simp [cellOffset_length_ne]
  | _ :: _, [] => by simp [cellOffset_length_ne]
  | len :: lengths, p :: positions => by
    rw [cellOffset_cons, List.forall₂_cons, ← cellOffset_isSome_iff lengths positions]
    split_ifs with hp
    . rw [Option.isSome_map, and_iff_right hp]
    . simp [hp]

theorem pos_of_lt_prod {lengths : List Nat} {offset : Nat} (h : offset < lengths.prod) :
    ∀ len ∈ lengths, 0 < len := by
  intro len hlen
  rcases Nat.eq_zero_or_pos len with rfl | hpos
  . rw [List.prod_eq_zero hlen] at h
    omega
  . exact hpos

end Radix

namespace Env

section Cells

variable {m : Type → Type} [Monad m] [LawfulMonad m] [MonadExceptOf OlapError m] [EvalMonad m]

/-- What a cell holds when evaluated at the context: its value, or the message of an error
confined to the cell; any other error fails the evaluation. -/
def cellContent (env : Env) : m CellValue :=
  tryCatch (do pure (CellValue.value (← env.cell))) fun e =>
    if e.isCellError then pure (.error e.message) else throw e

/-- The tuple the cell at `offset` places on the context: the tuples of the axes at the
positions read off the offset, in axis order. -/
def cellTuple (axes : List (List Tuple)) (offset : Nat) : Tuple :=
  (axes.zip (cellPositions (axes.map List.length) offset)).flatMap fun e => e.1.getD e.2 []

/-- A query's cells: the axes, each under its own non-empty mode, then the cell at every offset
below the product of the axis lengths, in order, evaluated with its axis tuples placed on the
context; then pruning when an axis asks for it. -/
theorem queryCells_eq (env : Env) (q : PreparedQuery) (hasData : Bool) :
    (env.queryCells q hasData : m CellSet) = (do
      let axes ← q.axes.mapM fun a => do pure (← within (.nonEmpty a.2) (env.setValue a.1)).toList
      let cells ← (List.range (axes.map List.length).prod).mapM fun offset =>
        if hasData then within (.tuple (cellTuple axes offset)) env.cellContent
        else pure (.value .null)
      pure (if (q.axes.map (·.2)).any id then CellSet.prune ⟨axes, cells⟩ (q.axes.map (·.2))
        else ⟨axes, cells⟩)) := by
  unfold queryCells
  dsimp only
  rw [forIn_push (fun a => do pure (← within (.nonEmpty a.2) (env.setValue a.1)).toList) _
    (fun a r => by rcases a with ⟨set, nonEmpty⟩; simp only [bind_assoc, pure_bind]),
    bind_map_left]
  refine congrArg (_ >>= ·) (funext fun axes => ?_)
  simp only [Array.empty_append, List.toList_toArray]
  rw [forIn_push (fun offset => if hasData then within (.tuple (cellTuple axes offset)) env.cellContent
      else pure (.value .null)) _ (fun offset r => by
        cases hasData
        . simp only [Bool.not_false, Bool.false_eq_true, if_true, if_false, pure_bind]
        . rfl), bind_map_left]
  simp only [Array.empty_append, List.toList_toArray]
  rfl

theorem setTuple_cellTuple (ctx : Context) (axes : List (List Tuple)) (offset : Nat) :
    ctx.setTuple (cellTuple axes offset) =
      ((axes.zip (cellPositions (axes.map List.length) offset)).map fun e => e.1.getD e.2 []).foldl
        Context.setTuple ctx := by
  rw [cellTuple, Context.setTuple, List.foldl_flatMap, List.foldl_map]
  rfl

end Cells

end Env

namespace CellSet

section Prune

/-- Position `p` of axis `i` lies on a cell that is not empty. -/
def Occupied (cs : CellSet) (i p : Nat) : Prop :=
  ∃ d c, d[i]? = some p ∧ cs.cell d = some c ∧ c.isEmpty = false

/-- One step of the marking walk, without its pattern matches: a cell that is not empty sets
the flag of its position on every axis. -/
def markStep (lengths : List Nat) (keep : List (List Bool)) (entry : CellValue × Nat) :
    List (List Bool) :=
  if entry.1.isEmpty then keep
  else (keep.zip (cellPositions lengths entry.2)).map fun e => e.1.set e.2 true

/-- The flags the marking walk starts from: every position of an axis that is not flagged is
kept. -/
def startFlags (axes : List (List Tuple)) (flags : List Bool) : List (List Bool) :=
  (axes.zip flags).map fun e => e.1.map fun _ => !e.2

/-- The flags of every axis position after the walk over the cells. -/
def markTable (cs : CellSet) (flags : List Bool) : List (List Bool) :=
  (cs.cells.zip (List.range cs.cells.length)).foldl (markStep (cs.axes.map List.length))
    (startFlags cs.axes flags)

/-- The positions pruning keeps on each axis, in order. -/
def keptPositions (cs : CellSet) (flags : List Bool) : List (List Nat) :=
  (cs.markTable flags).map fun row => (List.range row.length).filter fun p => row.getD p false

/-- The original positions of the cell of the pruned set at `positions`. -/
def originalPositions (kept : List (List Nat)) (positions : List Nat) : List Nat :=
  (kept.zip positions).map fun e => e.1.getD e.2 0

theorem prune_eq (cs : CellSet) (flags : List Bool) :
    cs.prune flags =
      ⟨(cs.axes.zip (cs.keptPositions flags)).map fun e => e.2.filterMap (e.1[·]?),
        (List.range ((cs.keptPositions flags).map List.length).prod).map fun offset =>
          (cellOffset (cs.axes.map List.length) (originalPositions (cs.keptPositions flags)
            (cellPositions ((cs.keptPositions flags).map List.length) offset))).elim default
            (cs.cells.getD · default)⟩ := by
  unfold prune
  dsimp only
  congr 2
  funext offset
  -- the match on the offset is `Option.elim` of the same offset
  split
  next _ o h => exact (congrArg (Option.elim · default (cs.cells.getD · default)) h).symm
  next _ h => exact (congrArg (Option.elim · default (cs.cells.getD · default)) h).symm

theorem getD_set_true (l : List Bool) (q p : Nat) :
    (l.set q true).getD p false = true ↔ l.getD p false = true ∨ p = q ∧ p < l.length := by
  rw [List.getD_eq_getElem?_getD, List.getD_eq_getElem?_getD, List.getElem?_set]
  split_ifs with hq hlt
  . subst hq
    simp [hlt]
  . subst hq
    simp [hlt]
  . simp [Ne.symm hq]

theorem getD_map_zip {α β γ : Type} (f : α × β → γ) {l : List α} {l' : List β}
    (h : l.length = l'.length) {a : α} {b : β} {c : γ} (hdefault : f (a, b) = c) (i : Nat) :
    ((l.zip l').map f).getD i c = f (l.getD i a, l'.getD i b) := by
  rcases Nat.lt_or_ge i l.length with hi | hi
  . rw [List.getD_eq_getElem _ _ (by simp only [List.length_map, List.length_zip]; omega),
      List.getElem_map, List.getElem_zip, List.getD_eq_getElem _ _ hi,
      List.getD_eq_getElem _ _ (h ▸ hi)]
  . rw [List.getD_eq_default _ _ (by simp only [List.length_map, List.length_zip]; omega),
      List.getD_eq_default _ _ hi, List.getD_eq_default _ _ (h ▸ hi), hdefault]

/-- A marking table with one row of flags per axis, each as long as its axis. -/
structure Rows (lengths : List Nat) (keep : List (List Bool)) : Prop where
  length : keep.length = lengths.length
  row : ∀ i, (keep.getD i []).length = lengths.getD i 0

variable {lengths : List Nat} {keep : List (List Bool)}

theorem getD_markStep (h : Rows lengths keep) (entry : CellValue × Nat) (i : Nat) :
    (markStep lengths keep entry).getD i [] =
      if entry.1.isEmpty then keep.getD i []
      else (keep.getD i []).set ((cellPositions lengths entry.2).getD i 0) true := by
  unfold markStep
  split_ifs
  . rfl
  . exact getD_map_zip (fun e => e.1.set e.2 true) (h.length.trans (length_cellPositions _ _).symm)
      (a := []) (b := 0) rfl i

theorem Rows.markStep (h : Rows lengths keep) (entry : CellValue × Nat) :
    Rows lengths (markStep lengths keep entry) := by
  refine ⟨?_, fun i => ?_⟩
  . unfold CellSet.markStep
    split_ifs
    . exact h.length
    . rw [List.length_map, List.length_zip, length_cellPositions, h.length, Nat.min_self]
  . rw [getD_markStep h]
    split_ifs
    . exact h.row i
    . rw [List.length_set, h.row]

theorem markStep_mark (h : Rows lengths keep) (entry : CellValue × Nat) (i p : Nat) :
    ((markStep lengths keep entry).getD i []).getD p false = true ↔
      (keep.getD i []).getD p false = true ∨
        entry.1.isEmpty = false ∧ p < lengths.getD i 0 ∧
          (cellPositions lengths entry.2).getD i 0 = p := by
  rw [getD_markStep h]
  cases entry.1.isEmpty
  . rw [if_neg Bool.false_ne_true, getD_set_true, h.row]
    simp only [true_and, eq_comm (a := p)]
    tauto
  . simp

/-- The marking walk sets the flag of position `p` of axis `i` exactly when it was set at the
start or a cell among `entries` that is not empty lies there. -/
theorem foldl_markStep : ∀ (entries : List (CellValue × Nat)) {keep : List (List Bool)},
    Rows lengths keep →
      Rows lengths (entries.foldl (markStep lengths) keep) ∧
        ∀ i p, ((entries.foldl (markStep lengths) keep).getD i []).getD p false = true ↔
          (keep.getD i []).getD p false = true ∨
            ∃ e ∈ entries, e.1.isEmpty = false ∧ p < lengths.getD i 0 ∧
              (cellPositions lengths e.2).getD i 0 = p
  | [], _, h => ⟨h, by simp⟩
  | e :: entries, keep, h => by
    obtain ⟨hrows, hmark⟩ := foldl_markStep entries (h.markStep e)
    refine ⟨hrows, fun i p => ?_⟩
    rw [List.foldl_cons, hmark, markStep_mark h, or_assoc]
    simp only [List.mem_cons, or_and_right, exists_or, exists_eq_left]

theorem getD_map_length {α : Type} (l : List (List α)) (i : Nat) :
    (l.map List.length).getD i 0 = (l.getD i []).length :=
  List.getD_map l [] List.length

section Start

variable {axes : List (List Tuple)} {flags : List Bool}

theorem getD_startFlags (hflags : flags.length = axes.length) (i : Nat) :
    (startFlags axes flags).getD i [] = (axes.getD i []).map fun _ => !(flags.getD i false) := by
  unfold startFlags
  exact getD_map_zip (fun e => e.1.map fun _ => !e.2) hflags.symm (a := []) (b := false) rfl i

theorem rows_startFlags (hflags : flags.length = axes.length) :
    Rows (axes.map List.length) (startFlags axes flags) := by
  refine ⟨?_, fun i => ?_⟩
  . rw [startFlags, List.length_map, List.length_zip, hflags, List.length_map, Nat.min_self]
  . rw [getD_startFlags hflags, List.length_map, getD_map_length]

theorem startFlags_mark (hflags : flags.length = axes.length) (i p : Nat) :
    ((startFlags axes flags).getD i []).getD p false = true ↔
      p < (axes.getD i []).length ∧ flags.getD i false = false := by
  rw [getD_startFlags hflags, List.getD_eq_getElem?_getD, List.getElem?_map]
  rcases Nat.lt_or_ge p (axes.getD i []).length with hp | hp
  . rw [List.getElem?_eq_getElem hp, Option.map_some, Option.getD_some, Bool.not_eq_true',
      and_iff_right hp]
  . rw [List.getElem?_eq_none hp, Option.map_none, Option.getD_none, Bool.false_eq_true,
      false_iff, not_and]
    exact fun h => absurd h (Nat.not_lt.2 hp)

end Start

theorem mem_zip_range {cells : List CellValue} {e : CellValue × Nat} :
    e ∈ cells.zip (List.range cells.length) ↔ cells[e.2]? = some e.1 := by
  rw [List.range_eq_range', ← List.zipIdx_eq_zip_range', List.mem_zipIdx_iff_getElem?]

theorem getD_cellPositions_lt : ∀ {lengths : List Nat} {offset : Nat}, offset < lengths.prod →
    ∀ {i : Nat}, i < lengths.length → (cellPositions lengths offset).getD i 0 < lengths.getD i 0
  | [], _, _, _, hi => absurd hi (Nat.not_lt_zero _)
  | len :: lengths, offset, h, i, hi => by
    have hlen : 0 < len := pos_of_lt_prod h len List.mem_cons_self
    rw [cellPositions_cons]
    cases i with
    | zero => exact Nat.mod_lt offset hlen
    | succ i =>
      rw [List.getD_cons_succ, List.getD_cons_succ]
      refine getD_cellPositions_lt ?_ (by simpa using hi)
      rw [List.prod_cons] at h
      exact (Nat.div_lt_iff_lt_mul hlen).2 (by rw [Nat.mul_comm]; exact h)

variable {cs : CellSet}

theorem cell_of_cellOffset {d : List Nat} {o : Nat}
    (h : cellOffset (cs.axes.map List.length) d = some o) : cs.cell d = cs.cells[o]? := by
  unfold cell
  rw [h]
  rfl

theorem cell_eq_some_iff (hcells : cs.cells.length = (cs.axes.map List.length).prod)
    (d : List Nat) (c : CellValue) :
    cs.cell d = some c ↔ ∃ o, cs.cells[o]? = some c ∧ cellPositions (cs.axes.map List.length) o = d := by
  constructor
  . intro h
    rcases hd : cellOffset (cs.axes.map List.length) d with _ | o
    . unfold cell at h
      rw [hd] at h
      cases h
    . rw [cell_of_cellOffset hd] at h
      exact ⟨o, h, ((cellOffset_eq_some_iff _ _ _).1 hd).2⟩
  . rintro ⟨o, ho, rfl⟩
    have hlt : o < (cs.axes.map List.length).prod := hcells ▸ (List.getElem?_eq_some_iff.1 ho).1
    rw [cell_of_cellOffset (cellOffset_cellPositions hlt), ho]

theorem occupied_iff (hcells : cs.cells.length = (cs.axes.map List.length).prod) (i p : Nat) :
    cs.Occupied i p ↔ ∃ e ∈ cs.cells.zip (List.range cs.cells.length), e.1.isEmpty = false ∧
      p < (cs.axes.map List.length).getD i 0 ∧
        (cellPositions (cs.axes.map List.length) e.2).getD i 0 = p := by
  constructor
  . rintro ⟨d, c, hd, hc, hne⟩
    obtain ⟨o, ho, rfl⟩ := (cell_eq_some_iff hcells d c).1 hc
    have hlt : o < (cs.axes.map List.length).prod := hcells ▸ (List.getElem?_eq_some_iff.1 ho).1
    have hi : i < (cs.axes.map List.length).length := by
      simpa using (List.getElem?_eq_some_iff.1 hd).1
    have hget : (cellPositions (cs.axes.map List.length) o).getD i 0 = p := by
      rw [List.getD_eq_getElem?_getD, hd, Option.getD_some]
    exact ⟨(c, o), mem_zip_range.2 ho, hne, hget ▸ getD_cellPositions_lt hlt hi, hget⟩
  . rintro ⟨⟨c, o⟩, he, hne, hp, hget⟩
    have hi : i < (cs.axes.map List.length).length := by
      by_contra hge
      rw [List.getD_eq_default _ _ (Nat.le_of_not_lt hge)] at hp
      exact Nat.not_lt_zero p hp
    refine ⟨cellPositions (cs.axes.map List.length) o, c, ?_,
      (cell_eq_some_iff hcells _ c).2 ⟨o, mem_zip_range.1 he, rfl⟩, hne⟩
    rw [List.getElem?_eq_getElem (by rw [length_cellPositions]; exact hi),
      ← List.getD_eq_getElem _ 0, hget]

variable {flags : List Bool}

theorem rows_markTable (hflags : flags.length = cs.axes.length) :
    Rows (cs.axes.map List.length) (cs.markTable flags) :=
  (foldl_markStep _ (rows_startFlags hflags)).1

theorem markTable_mark (hflags : flags.length = cs.axes.length)
    (hcells : cs.cells.length = (cs.axes.map List.length).prod) (i p : Nat) :
    ((cs.markTable flags).getD i []).getD p false = true ↔
      p < (cs.axes.getD i []).length ∧ (flags.getD i false = false ∨ cs.Occupied i p) := by
  rw [markTable, (foldl_markStep _ (rows_startFlags hflags)).2, startFlags_mark hflags,
    occupied_iff hcells, getD_map_length]
  constructor
  . rintro (⟨hp, hflag⟩ | ⟨e, he, hne, hp, hget⟩)
    . exact ⟨hp, .inl hflag⟩
    . exact ⟨hp, .inr ⟨e, he, hne, hp, hget⟩⟩
  . rintro ⟨hp, hflag | hocc⟩
    . exact .inl ⟨hp, hflag⟩
    . exact .inr hocc

theorem getD_keptPositions (i : Nat) :
    (cs.keptPositions flags).getD i [] =
      (List.range ((cs.markTable flags).getD i []).length).filter fun p =>
        ((cs.markTable flags).getD i []).getD p false :=
  List.getD_map _ [] _

theorem length_keptPositions (hflags : flags.length = cs.axes.length) :
    (cs.keptPositions flags).length = cs.axes.length := by
  rw [keptPositions, List.length_map, (rows_markTable hflags).length, List.length_map]

theorem pairwise_keptPositions (i : Nat) : ((cs.keptPositions flags).getD i []).Pairwise (· < ·) := by
  rw [getD_keptPositions]
  exact List.pairwise_lt_range.filter _

/-- An axis keeps the positions within it that are occupied, and all of them when it is not
flagged. -/
theorem mem_keptPositions (hflags : flags.length = cs.axes.length)
    (hcells : cs.cells.length = (cs.axes.map List.length).prod) (i p : Nat) :
    p ∈ (cs.keptPositions flags).getD i [] ↔
      p < (cs.axes.getD i []).length ∧ (flags.getD i false = false ∨ cs.Occupied i p) := by
  rw [getD_keptPositions, List.mem_filter, List.mem_range, (rows_markTable hflags).row,
    markTable_mark hflags hcells, getD_map_length, and_self_left]

theorem getD_of_getElem? {α : Type} {l : List α} {i : Nat} {a d : α} (h : l[i]? = some a) :
    l.getD i d = a := by
  rw [List.getD_eq_getElem?_getD, h, Option.getD_some]

theorem filterMap_getElem?_eq_map {axis : List Tuple} :
    ∀ {ps : List Nat}, (∀ p ∈ ps, p < axis.length) → ps.filterMap (axis[·]?) = ps.map (axis.getD · [])
  | [], _ => rfl
  | p :: ps, h => by
    have hp : p < axis.length := h p List.mem_cons_self
    rw [List.filterMap_cons, List.getElem?_eq_getElem hp, List.map_cons, List.getD_eq_getElem _ _ hp,
      filterMap_getElem?_eq_map fun q hq => h q (List.mem_cons_of_mem p hq)]

theorem prune_axes (hflags : flags.length = cs.axes.length)
    (hcells : cs.cells.length = (cs.axes.map List.length).prod) :
    (cs.prune flags).axes = (cs.axes.zip (cs.keptPositions flags)).map fun e => e.2.map (e.1.getD · []) := by
  rw [prune_eq]
  refine List.map_congr_left fun e he => filterMap_getElem?_eq_map fun p hp => ?_
  obtain ⟨i, hi⟩ := List.mem_iff_getElem?.1 he
  obtain ⟨haxis, hkept⟩ := List.getElem?_zip_eq_some.1 hi
  rw [← getD_of_getElem? (d := []) hkept, mem_keptPositions hflags hcells] at hp
  rw [← getD_of_getElem? (d := []) haxis]
  exact hp.1

theorem prune_lengths (hflags : flags.length = cs.axes.length)
    (hcells : cs.cells.length = (cs.axes.map List.length).prod) :
    (cs.prune flags).axes.map List.length = (cs.keptPositions flags).map List.length := by
  have hsnd := @List.map_snd_zip _ _ cs.axes (cs.keptPositions flags)
    (by rw [length_keptPositions hflags])
  rw [prune_axes hflags hcells, List.map_map]
  conv_rhs => rw [← hsnd, List.map_map]
  refine List.map_congr_left fun e _ => ?_
  simp

theorem length_prune_cells :
    (cs.prune flags).cells.length = ((cs.keptPositions flags).map List.length).prod := by
  rw [prune_eq, List.length_map, List.length_range]

theorem originalPositions_cons (ps : List Nat) (kept : List (List Nat)) (p : Nat) (c : List Nat) :
    originalPositions (ps :: kept) (p :: c) = ps.getD p 0 :: originalPositions kept c := rfl

theorem forall₂_originalPositions {kept : List (List Nat)} {c : List Nat}
    (hc : List.Forall₂ (fun p ps => p < ps.length) c kept) :
    ∀ {lengths : List Nat}, List.Forall₂ (fun ps len => ∀ p ∈ ps, p < len) kept lengths →
      List.Forall₂ (· < ·) (originalPositions kept c) lengths := by
  induction hc with
  | nil => intro lengths hk; cases hk; exact .nil
  | cons hp _ ih =>
    intro lengths hk
    cases hk with
    | cons hps hk =>
      rw [originalPositions_cons]
      exact .cons (hps _ (List.getD_eq_getElem _ _ hp ▸ List.getElem_mem hp)) (ih hk)

theorem forall₂_keptPositions (hflags : flags.length = cs.axes.length)
    (hcells : cs.cells.length = (cs.axes.map List.length).prod) :
    List.Forall₂ (fun ps len => ∀ p ∈ ps, p < len) (cs.keptPositions flags)
      (cs.axes.map List.length) := by
  refine List.forall₂_iff_get.2 ⟨by rw [length_keptPositions hflags, List.length_map],
    fun i h₁ h₂ p hp => ?_⟩
  rw [List.get_eq_getElem, ← List.getD_eq_getElem _ [] h₁, mem_keptPositions hflags hcells] at hp
  rw [List.get_eq_getElem, ← List.getD_eq_getElem _ 0 h₂, getD_map_length]
  exact hp.1

/-- A cell of the pruned set is the cell of the original set at the original positions. -/
theorem prune_cell (hflags : flags.length = cs.axes.length)
    (hcells : cs.cells.length = (cs.axes.map List.length).prod) (c : List Nat)
    (hc : List.Forall₂ (fun p ps => p < ps.length) c (cs.keptPositions flags)) :
    (cs.prune flags).cell c = cs.cell (originalPositions (cs.keptPositions flags) c) := by
  -- the offset of `c` among the kept positions
  obtain ⟨o', ho'⟩ := Option.isSome_iff_exists.1
    ((cellOffset_isSome_iff _ _).2 (List.forall₂_map_right_iff.2 hc))
  obtain ⟨hlt', hpos'⟩ := (cellOffset_eq_some_iff _ _ _).1 ho'
  -- the offset of the original positions among all positions
  obtain ⟨o, ho⟩ := Option.isSome_iff_exists.1 ((cellOffset_isSome_iff _ _).2
    (forall₂_originalPositions hc (forall₂_keptPositions hflags hcells)))
  have hlt : o < cs.cells.length := hcells ▸ ((cellOffset_eq_some_iff _ _ _).1 ho).1
  rw [cell_of_cellOffset ((prune_lengths hflags hcells).symm ▸ ho'), cell_of_cellOffset ho, prune_eq]
  dsimp only
  rw [List.getElem?_map, List.getElem?_range hlt', Option.map_some, hpos', ho, Option.elim_some,
    List.getD_eq_getElem _ _ hlt, List.getElem?_eq_getElem hlt]

end Prune

end CellSet

/-- The cells of a query are laid out in mixed radix over the axis lengths, axis 0 varying
fastest: the cell at each offset below the product of the lengths is evaluated with the tuples
of the axes at the offset's positions placed on the context one after the other, in axis order,
and `CellSet.cell` finds it at those positions. Pruning keeps on each axis, in increasing order,
exactly the positions within it that lie on a cell that is not empty (an error is not empty),
and all of them on an axis that is not flagged; the pruned set has one cell for each vector of
kept positions, the original cell at the original positions. An empty axis leaves no cell. -/
theorem query_cells_follow_layout :
    (∀ (env : Env) (q : PreparedQuery) (hasData : Bool),
      (env.queryCells q hasData : EvalOn CellSet) = (do
        let axes ← q.axes.mapM fun a => do pure (← within (.nonEmpty a.2) (env.setValue a.1)).toList
        let cells ← (List.range (axes.map List.length).prod).mapM fun offset =>
          if hasData then within (.tuple (Env.cellTuple axes offset)) env.cellContent
          else pure (.value .null)
        pure (if (q.axes.map (·.2)).any id then CellSet.prune ⟨axes, cells⟩ (q.axes.map (·.2))
          else ⟨axes, cells⟩))) ∧
    (∀ (ctx : Context) (axes : List (List Tuple)) (offset : Nat),
      ctx.setTuple (Env.cellTuple axes offset) =
        ((axes.zip (cellPositions (axes.map List.length) offset)).map fun e => e.1.getD e.2 []).foldl
          Context.setTuple ctx) ∧
    ∀ cs : CellSet, cs.cells.length = (cs.axes.map List.length).prod →
      (∀ d c, cs.cell d = some c ↔
        ∃ o, cs.cells[o]? = some c ∧ cellPositions (cs.axes.map List.length) o = d) ∧
      ∀ flags : List Bool, flags.length = cs.axes.length →
        ∃ kept : List (List Nat), kept.length = cs.axes.length ∧
          (∀ i, (kept.getD i []).Pairwise (· < ·) ∧ ∀ p, p ∈ kept.getD i [] ↔
            p < (cs.axes.getD i []).length ∧ (flags.getD i false = false ∨ cs.Occupied i p)) ∧
          (cs.prune flags).axes = (cs.axes.zip kept).map (fun e => e.2.map (e.1.getD · [])) ∧
          (cs.prune flags).cells.length = (kept.map List.length).prod ∧
          ∀ c, List.Forall₂ (fun p ps => p < ps.length) c kept →
            (cs.prune flags).cell c = cs.cell (CellSet.originalPositions kept c) := by
  refine ⟨Env.queryCells_eq, Env.setTuple_cellTuple, fun cs hcells => ⟨CellSet.cell_eq_some_iff hcells,
    fun flags hflags => ⟨cs.keptPositions flags, CellSet.length_keptPositions hflags,
      fun i => ⟨CellSet.pairwise_keptPositions i, CellSet.mem_keptPositions hflags hcells i⟩,
      CellSet.prune_axes hflags hcells, CellSet.length_prune_cells,
      CellSet.prune_cell hflags hcells⟩⟩⟩

/-- Two axes, the first flagged, over an empty cell and an error cell. -/
theorem query_cells_follow_layout_two_axes :
    let cs : CellSet := ⟨[[[], []], [[]]], [.value .null, .error "division by zero"]⟩
    let flags := [true, false]
    cs.cells.length = (cs.axes.map List.length).prod ∧ flags.length = cs.axes.length ∧
      ∃ kept : List (List Nat), kept.length = cs.axes.length ∧
        (∀ i, (kept.getD i []).Pairwise (· < ·) ∧ ∀ p, p ∈ kept.getD i [] ↔
          p < (cs.axes.getD i []).length ∧ (flags.getD i false = false ∨ cs.Occupied i p)) ∧
        (cs.prune flags).axes = (cs.axes.zip kept).map (fun e => e.2.map (e.1.getD · [])) ∧
        (cs.prune flags).cells.length = (kept.map List.length).prod ∧
        ∀ c, List.Forall₂ (fun p ps => p < ps.length) c kept →
          (cs.prune flags).cell c = cs.cell (CellSet.originalPositions kept c) := by
  intro cs flags
  have hcells : cs.cells.length = (cs.axes.map List.length).prod := rfl
  have hflags : flags.length = cs.axes.length := rfl
  exact ⟨hcells, hflags, (query_cells_follow_layout.2.2 cs hcells).2 flags hflags⟩

end OlapCalc
