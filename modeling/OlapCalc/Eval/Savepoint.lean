import OlapCalc.Eval.Context

/-!
The evaluator: a context that nested evaluations change between a savepoint and its restore.

A change is journaled, with the value it replaced, only while some savepoint is outstanding. A
savepoint remembers the length of the journal when it was taken; restoring it replays the
journal backwards down to that length and discards the savepoints taken after it, and the
journal is dropped once no savepoint is left. Placing a member that is already current, or
giving the non-empty flag the value it has, journals nothing.
-/

namespace OlapCalc

/-- A journaled change: the value it replaced. -/
inductive Undo where
  | member (m : Member)
  | nonEmpty (b : Bool)
  | slicer (tuples : List Tuple)

/-- Puts a replaced value back. -/
def Undo.revert (ctx : Context) : Undo → Context
  | .member m => { ctx with coordinate := ctx.coordinate.set m.hierarchy m }
  | .nonEmpty b => { ctx with nonEmpty := b }
  | .slicer ts => { ctx with slicer := ts }

/-- An outstanding savepoint: its serial number and the journal length when it was taken. -/
structure Mark where
  serial : Nat
  journalLen : Nat

/-- What `mark` hands out: the evaluator it belongs to and the serial number. -/
structure Savepoint where
  evaluator : Nat
  serial : Nat
deriving DecidableEq

/-- Why a restore is refused: the savepoint is another evaluator's, or no longer outstanding. -/
inductive RestoreFailure where
  | foreign
  | outOfOrder (serial : Nat)
deriving DecidableEq

def RestoreFailure.message : RestoreFailure → String
  | .foreign =>
    "assertion `left == right` failed: savepoint restored on an evaluator that did not create it"
  | .outOfOrder serial =>
    "savepoint " ++ toString serial ++ " restored out of order or after an outer savepoint"

/-- The position and the mark of the last outstanding savepoint with `serial`. -/
def lastMark? (serial : Nat) : List Mark → Option (Nat × Mark)
  | [] => none
  | m :: rest =>
    match lastMark? serial rest with
    | some (i, found) => some (i + 1, found)
    | none => if m.serial == serial then some (0, m) else none

structure Evaluator where
  id : Nat
  ctx : Context
  /-- Replaced values, the latest first. -/
  journal : List Undo := []
  /-- Outstanding savepoints, the oldest first. -/
  marks : List Mark := []
  nextSerial : Nat := 0

namespace Evaluator

/-- A fresh evaluator: every hierarchy on its default member. -/
def new (cube : Cube) (id : Nat) : Evaluator := ⟨id, Context.initial cube, [], [], 0⟩

/-- Journals a replaced value while a savepoint is outstanding. -/
def record (ev : Evaluator) (u : Undo) : Evaluator :=
  if ev.marks.isEmpty then ev else { ev with journal := u :: ev.journal }

def setContext (ev : Evaluator) (m : Member) : Evaluator :=
  match ev.ctx.coordinate[m.hierarchy]? with
  | none => ev
  | some current =>
    if current == m then ev
    else ({ ev with ctx := ev.ctx.setMember m }).record (.member current)

def setContextTuple (ev : Evaluator) (t : Tuple) : Evaluator := t.foldl setContext ev

def setNonEmpty (ev : Evaluator) (b : Bool) : Evaluator :=
  if ev.ctx.nonEmpty == b then ev
  else ({ ev with ctx := { ev.ctx with nonEmpty := b } }).record (.nonEmpty ev.ctx.nonEmpty)

def setSlicer (ev : Evaluator) (tuples : List Tuple) : Evaluator :=
  ({ ev with ctx := { ev.ctx with slicer := tuples } }).record (.slicer ev.ctx.slicer)

/-- Drops the slicer's members of `hierarchies`; nothing changes when the slicer has none. -/
def widenSlicer (ev : Evaluator) (hierarchies : List Nat) : Evaluator :=
  if ev.ctx.slicer.any (·.any fun m => hierarchies.contains m.hierarchy) then
    ev.setSlicer (projectOut ev.ctx.slicer hierarchies)
  else ev

def mark (ev : Evaluator) : Evaluator × Savepoint :=
  let m : Mark := ⟨ev.nextSerial, ev.journal.length⟩
  ({ ev with marks := ev.marks ++ [m], nextSerial := ev.nextSerial + 1 }, ⟨ev.id, ev.nextSerial⟩)

/-- Replays the journal down to the length of mark `m`, the one at `pos`, and drops it with the
marks after it; the journal goes when no mark is left. -/
def rollback (ev : Evaluator) (pos : Nat) (m : Mark) : Evaluator :=
  let undone := ev.journal.length - m.journalLen
  let marks := ev.marks.take pos
  { ev with
    ctx := (ev.journal.take undone).foldl Undo.revert ev.ctx
    journal := if marks.isEmpty then [] else ev.journal.drop undone
    marks := marks }

/-- Undoes every change since `sp` was taken and discards the savepoints taken after it. -/
def restore (ev : Evaluator) (sp : Savepoint) : Except RestoreFailure Evaluator := do
  if sp.evaluator != ev.id then throw .foreign
  let some (pos, m) := lastMark? sp.serial ev.marks | throw (.outOfOrder sp.serial)
  pure (ev.rollback pos m)

/-- The serial numbers of the outstanding savepoints, the oldest first. -/
def outstanding (ev : Evaluator) : List Nat := ev.marks.map (·.serial)

end Evaluator

end OlapCalc
