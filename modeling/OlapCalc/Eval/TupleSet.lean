import OlapCalc.Cube.Memory
import OlapCalc.Value.Shape

/-!
Set values in their negotiated representations.

A set is handed over as a one-pass sequence, a shared list or a list the consumer owns. A
sequence is described, not computed: the tuples of a list, the cartesian product of lists (the
last list varying fastest), or the first `n` tuples of another sequence. Every sequence knows
its exact length, so a consumer that only counts, or only takes a prefix, never builds the
rest of a product.

The engine walks a product with an odometer (`Cartesian`): one index per list, the last turning
fastest and carrying leftwards, next to a count of the tuples still to come that is fixed when
the walk starts and alone decides when it stops.
-/

namespace OlapCalc

/-- The largest machine-sized count; longer products report this length. -/
def countLimit : Nat := Nat.pow 2 64 - 1

/-- Machine-sized multiplication that stops at the largest count. -/
def saturatingMul (a b : Nat) : Nat := min (a * b) countLimit

/-- A lazily described sequence of tuples. -/
inductive TupleStream where
  | list (tuples : List Tuple)
  | product (lists : List (List Tuple))
  | take (n : Nat) (s : TupleStream)
deriving Inhabited

namespace TupleStream

/-- The number of tuples of a product of lists: zero without lists. -/
def productSize (lists : List (List Tuple)) : Nat :=
  match lists with
  | [] => 0
  | _ => (lists.map List.length).foldr (· * ·) 1

/-- The tuples, in order. -/
def toList : TupleStream → List Tuple
  | .list ts => ts
  | .product lists => cartesian lists
  | .take n s => (toList s).take n

/-- The number of tuples. -/
def size : TupleStream → Nat
  | .list ts => ts.length
  | .product lists => productSize lists
  | .take n s => min n (size s)

/-- The length a sequence reports, capped at the machine-sized limit. -/
def reportedSize (s : TupleStream) : Nat := min s.size countLimit

/-- The first `n` tuples of a product, built without the rest. -/
def productPrefix : List (List Tuple) → Nat → List Tuple
  | [], _ => []
  | [l], n => l.take n
  | l :: rest, n =>
    let step := fun (acc : List Tuple × Nat) (t : Tuple) =>
      if acc.2 == 0 then acc
      else
        let block := productPrefix rest acc.2
        (acc.1 ++ block.map (t ++ ·), acc.2 - block.length)
    (l.foldl step ([], n)).1

/-- The first `n` tuples of a sequence. -/
def firstN : TupleStream → Nat → List Tuple
  | .list ts, n => ts.take n
  | .product lists, n => productPrefix lists n
  | .take k s, n => firstN s (min k n)

/-- All tuples; a prefix of a product is built without the rest of it. -/
def collect : TupleStream → List Tuple
  | .take n s => firstN s n
  | s => s.toList

section Traversal

variable {m : Type → Type} {β : Type} [Monad m]

/-- Feeds tuples to a loop body until it stops. -/
def feedList (f : Tuple → β → m (ForInStep β)) (ts : List Tuple) (b : β) : m (ForInStep β) :=
  let step := fun (st : ForInStep β) (t : Tuple) =>
    match st with
    | .done b => pure (.done b)
    | .yield b => f t b
  ts.foldlM step (.yield b)

/-- Feeds the tuples of a product, each prefixed with `pre`, to a loop body, building one tuple
at a time. -/
def feedProduct (f : Tuple → β → m (ForInStep β)) : List (List Tuple) → Tuple → β →
    m (ForInStep β)
  | [], pre, b => f pre b
  | l :: rest, pre, b =>
    let step := fun (st : ForInStep β) (t : Tuple) =>
      match st with
      | .done b => pure (.done b)
      | .yield b => feedProduct f rest (pre ++ t) b
    l.foldlM step (.yield b)

/-- Feeds the tuples of a sequence to a loop body, in order, without building the sequence. -/
def feed : {γ : Type} → (Tuple → γ → m (ForInStep γ)) → TupleStream → γ → m (ForInStep γ)
  | _, f, .list ts, b => feedList f ts b
  | _, _, .product [], b => pure (.yield b)
  | _, f, .product lists, b => feedProduct f lists [] b
  | γ, f, .take n s, b => do
    if n == 0 then pure (.yield b)
    else
      let counted := fun (t : Tuple) (acc : γ × Nat) => do
        match ← f t acc.1 with
        | .done b => pure (ForInStep.done (b, acc.2))
        | .yield b =>
          if acc.2 ≤ 1 then pure (ForInStep.done (b, 0)) else pure (ForInStep.yield (b, acc.2 - 1))
      match ← feed counted s (b, n) with
      | .done (b, _) => pure (.yield b)
      | .yield (b, _) => pure (.yield b)

end Traversal

instance {m : Type → Type} [Monad m] : ForIn m TupleStream Tuple where
  forIn s b f := do
    match ← feed f s b with
    | .done b => pure b
    | .yield b => pure b

end TupleStream

/-- The engine's iterator over the product of tuple lists: an odometer of indices into the
lists, and the number of tuples still to come. That number is fixed when the iterator is made,
as the product of the lengths saturating at the machine-sized limit. -/
structure Cartesian where
  lists : List (List Tuple)
  indices : List Nat
  remaining : Nat

namespace Cartesian

/-- Starts at the first tuple of every list; without lists there is nothing to yield. -/
def new (lists : List (List Tuple)) : Cartesian where
  lists := lists
  indices := lists.map fun _ => 0
  remaining := if lists.isEmpty then 0 else lists.foldl (fun acc l => saturatingMul acc l.length) 1

/-- The number of tuples still to come, as the iterator reports it (its length, and both bounds
of its size hint). -/
def len (c : Cartesian) : Nat := c.remaining

/-- The tuple that indices select: the chosen tuple of each list, concatenated. -/
def select (lists : List (List Tuple)) (indices : List Nat) : Tuple :=
  (List.zipWith (fun l i => l[i]!) lists indices).flatten

/-- The tuple at the odometer's position. -/
def current (c : Cartesian) : Tuple := select c.lists c.indices

/-- One turn of the odometer, from the last position leftwards: the index is incremented, and
one that reaches its list's length wraps to zero and carries into the position before it. The
flag tells whether a carry is still pending past the first position. -/
def advance : List (List Tuple) → List Nat → List Nat × Bool
  | l :: ls, i :: is =>
    let tail := advance ls is
    if tail.2 then
      if i + 1 < l.length then ((i + 1) :: tail.1, false) else (0 :: tail.1, true)
    else (i :: tail.1, false)
  | _, _ => ([], true)

/-- Yields the tuple at the odometer's position and turns it, while tuples are still to come. -/
def next? (c : Cartesian) : Option (Tuple × Cartesian) :=
  if c.remaining = 0 then none
  else some (c.current,
    { c with indices := (advance c.lists c.indices).1, remaining := c.remaining - 1 })

/-- The tuples the iterator yields from here on, calling `next?` until it gives nothing. -/
def drain (c : Cartesian) : List Tuple := go c.remaining c
where
  /-- Each call lowers the count of tuples still to come, so that count bounds the calls. -/
  go : Nat → Cartesian → List Tuple
    | 0, _ => []
    | fuel + 1, c => c.next?.elim [] fun step => step.1 :: go fuel step.2

end Cartesian

/-- A set value in one of the negotiated representations. -/
inductive TupleSet where
  | iterable (s : TupleStream)
  | list (tuples : List Tuple)
  | mutableList (tuples : List Tuple)
deriving Inhabited

namespace TupleSet

/-- The representation. -/
def style : TupleSet → ResultStyle
  | .iterable _ => .iterable
  | .list _ => .list
  | .mutableList _ => .mutableList

/-- The tuples, in order. -/
def toList : TupleSet → List Tuple
  | .iterable s => s.collect
  | .list ts => ts
  | .mutableList ts => ts

/-- The known length. -/
def lenHint : TupleSet → Nat
  | .iterable s => s.reportedSize
  | .list ts => ts.length
  | .mutableList ts => ts.length

/-- The set as a sequence. -/
def stream : TupleSet → TupleStream
  | .iterable s => s
  | .list ts => .list ts
  | .mutableList ts => .list ts

/-- Converts to `style`: a sequence becomes a list when a list is asked for, and any shared
form becomes an owned list when one is asked for; otherwise the set is kept as it is. -/
def adapt (set : TupleSet) (style : ResultStyle) : TupleSet :=
  match style, set with
  | .list, .iterable s => .list s.collect
  | .mutableList, .iterable s => .mutableList s.collect
  | .mutableList, .list ts => .mutableList ts
  | _, set => set

/-- Wraps a freshly built list in the negotiated representation. -/
def deliver (tuples : List Tuple) : ResultStyle → TupleSet
  | .iterable => .iterable (.list tuples)
  | .mutableList => .mutableList tuples
  | _ => .list tuples

/-- The debug text of a list of tuples: `[(a, b), (c)]`. -/
def debugTuples (ts : List Tuple) : String := "[" ++ ", ".intercalate (ts.map Tuple.debug) ++ "]"

/-- The debug text of the set. -/
def debug : TupleSet → String
  | .iterable _ => "TupleSet::Iterable(..)"
  | .list ts => "TupleSet::List(" ++ debugTuples ts ++ ")"
  | .mutableList ts => "TupleSet::MutableList(" ++ debugTuples ts ++ ")"

end TupleSet

end OlapCalc
