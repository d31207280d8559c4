import OlapCalc.Proofs.ShapeInference

/-!
Typing of compiled nodes.

A shape promises what a node produces: `Value.Conforms v s` says which values a node of shape
`s` may give, and `Shape.Fits` orders shapes so that what conforms to one conforms to the
larger (an integer is a float, every scalar a scalar). `Node.Typed` types a node against its
operands: every operand is read at the shape the node evaluates it at, the branches of a
conditional fit its shape, a constant conforms to its own shape, and a native site ranges over
as many hierarchies as the node's tuples have members.

A function table is typed when each signature declares the operands its implementation reads
(`FunctionSpec.Typed`) and the native analysis, which recognises cross joins, level members,
children and braces by name, finds them under those names; the built-in table is.
-/

namespace OlapCalc

namespace Value

/-- The values a node of shape `s` produces: a scalar shape admits null and its own kind (an
integer where a float is expected), a member shape a member or null, tuple and set shapes a
tuple, or a set of tuples, of their arity, and a symbol its text. -/
def Conforms : Value → Shape → Prop
  | .null, .boolean | .boolean _, .boolean => True
  | .null, .integer | .integer _, .integer => True
  | .null, .float | .integer _, .float | .float _, .float => True
  | .null, .string | .string _, .string => True
  | .null, .scalar | .boolean _, .scalar | .integer _, .scalar | .float _, .scalar
  | .string _, .scalar => True
  | .null, .member | .member _, .member => True
  | .tuple t, .tuple a => t.length = a
  | .set ts, .set a => ∀ t ∈ ts, t.length = a
  | .level _, .level | .hierarchy _, .hierarchy | .string _, .symbol => True
  | _, _ => False

@[simp] theorem conforms_null {s : Shape} (hs : s.isScalar) : Value.null.Conforms s := by
  cases s <;> simp [Shape.isScalar, Shape.category, Category.isScalar] at hs <;> trivial

@[simp] theorem conforms_set {ts : List Tuple} {a : Nat} :
    (Value.set ts).Conforms (.set a) ↔ ∀ t ∈ ts, t.length = a := Iff.rfl

@[simp] theorem conforms_tuple {t : Tuple} {a : Nat} :
    (Value.tuple t).Conforms (.tuple a) ↔ t.length = a := Iff.rfl

theorem conforms_ofOptFloat (x : Option Float) : (ofOptFloat x).Conforms .float := by
  cases x <;> trivial

theorem Conforms.member {v : Value} (h : v.Conforms .member) : v = .null ∨ ∃ m, v = .member m := by
  cases v with
  | null => exact .inl rfl
  | member m => exact .inr ⟨m, rfl⟩
  | _ => exact h.elim

theorem Conforms.set {v : Value} {a : Nat} (h : v.Conforms (.set a)) :
    ∃ ts, v = .set ts ∧ ∀ t ∈ ts, t.length = a := by
  cases v with
  | set ts => exact ⟨ts, rfl, h⟩
  | _ => exact h.elim

theorem Conforms.tuple {v : Value} {a : Nat} (h : v.Conforms (.tuple a)) :
    ∃ t, v = .tuple t ∧ t.length = a := by
  cases v with
  | tuple t => exact ⟨t, rfl, h⟩
  | _ => exact h.elim

end Value

namespace Shape

/-- `a` fits `s` when every value of shape `a` is one of shape `s`: the same shape, an integer
where a float is expected, or any scalar where a scalar is. -/
def Fits (a s : Shape) : Prop := a = s ∨ (a = .integer ∧ s = .float) ∨ (a.isScalar ∧ s = .scalar)

instance (a s : Shape) : Decidable (a.Fits s) :=
  inferInstanceAs (Decidable (a = s ∨ (a = .integer ∧ s = .float) ∨ (a.isScalar ∧ s = .scalar)))

theorem Fits.refl (a : Shape) : a.Fits a := Or.inl rfl

theorem Fits.isScalar {a s : Shape} (h : a.Fits s) (hs : s.isScalar) : a.isScalar := by
  rcases h with rfl | ⟨rfl, -⟩ | ⟨ha, -⟩
  . exact hs
  . rfl
  . exact ha

theorem Fits.trans {a b s : Shape} (hab : a.Fits b) (hbs : b.Fits s) : a.Fits s := by
  rcases hab with rfl | ⟨rfl, rfl⟩ | ⟨ha, rfl⟩
  . exact hbs
  . rcases hbs with rfl | ⟨h, -⟩ | ⟨-, rfl⟩
    . exact Or.inr (Or.inl ⟨rfl, rfl⟩)
    . cases h
    . exact Or.inr (Or.inr ⟨rfl, rfl⟩)
  . rcases hbs with rfl | ⟨h, -⟩ | ⟨-, rfl⟩
    . exact Or.inr (Or.inr ⟨ha, rfl⟩)
    . cases h
    . exact Or.inr (Or.inr ⟨ha, rfl⟩)

theorem fits_unify {a b : Shape} (ha : a.isScalar) (hb : b.isScalar) :
    a.Fits (a.unify b) ∧ b.Fits (a.unify b) := by
  unfold unify
  split_ifs with hab hnum
  . exact ⟨Fits.refl a, Or.inl (eq_of_beq hab).symm⟩
  . -- an integer and a float widen to a float
    simp only [Bool.and_eq_true, Bool.or_eq_true, beq_iff_eq] at hnum
    obtain ⟨ha' | ha', hb' | hb'⟩ := hnum <;> subst ha' hb' <;> simp +decide
  . exact ⟨Or.inr (Or.inr ⟨ha, rfl⟩), Or.inr (Or.inr ⟨hb, rfl⟩)⟩

theorem fits_foldl_unify {l : List Shape} (hl : ∀ a ∈ l, a.isScalar) :
    ∀ {acc : Shape}, acc.isScalar → acc.Fits (l.foldl unify acc) ∧ ∀ a ∈ l, a.Fits (l.foldl unify acc) := by
  induction l with
  | nil => exact fun _ => ⟨Fits.refl _, fun _ h => absurd h List.not_mem_nil⟩
  | cons b l ih =>
    intro acc hacc
    have hb := hl b List.mem_cons_self
    obtain ⟨hacc', hb'⟩ := fits_unify hacc hb
    obtain ⟨hfold, hrest⟩ := ih (fun a ha => hl a (List.mem_cons_of_mem b ha)) (unify_isScalar hacc b)
    refine ⟨hacc'.trans hfold, fun a ha => ?_⟩
    rcases List.mem_cons.mp ha with rfl | ha
    . exact hb'.trans hfold
    . exact hrest a ha

theorem convertedTo_isScalar (s : Shape) {c : Category} (hc : c.isScalar) :
    (s.convertedTo c).isScalar := by
  cases c
  case member | tuple | set | level | hierarchy | symbol => cases hc
  case boolean | integer | string => rfl
  case numeric =>
    -- an integer stays one, anything else becomes a float
    simp only [convertedTo]
    split <;> rfl
  case value =>
    -- a scalar stays as it is, anything else becomes an untyped scalar
    simp only [convertedTo]
    split
    . assumption
    . rfl

end Shape

theorem Value.Conforms.fits {v : Value} {a s : Shape} (hv : v.Conforms a) (h : a.Fits s) :
    v.Conforms s := by
  rcases h with rfl | ⟨rfl, rfl⟩ | ⟨ha, rfl⟩
  . exact hv
  . -- null and the integers are floats too
    cases v with
    | null | integer _ => trivial
    | _ => exact hv.elim
  . -- a scalar shape holds null, booleans, numbers or texts, and each of them is a scalar
    cases a
    case member | tuple | set | level | hierarchy | symbol => cases ha
    all_goals
      cases v with
      | null | boolean _ | integer _ | float _ | string _ => trivial
      | _ => exact hv.elim

/-- A native site whose plan ranges over `arity` hierarchies, one member of each per tuple. -/
def NativeSite.Ranges (site : NativeSite) (arity : Nat) : Prop :=
  ∀ plan, site.plan = .ok plan → plan.sources.length = arity

/-- The run-time conversions of a scalar of shape `s`: to a number (an integer is one already
and needs none), an integer, a boolean or a text. -/
def Category.Coerces (target : Category) (s : Shape) : Prop :=
  match target with
  | .numeric => s ≠ .integer
  | .integer | .boolean | .string => True
  | _ => False

namespace Node

mutual

/-- A node typed against its operands. -/
def Typed : Node → Prop
  | .const v s => v.Conforms s
  | .memberConst _ | .currentMember _ | .levelMembers _ => True
  | .parent n | .memberName n | .memberToTuple n | .children n => n.Typed ∧ n.shape = .member
  | .tuple ns => MembersTyped ns
  | .arith _ l r | .compare _ l r | .logical _ l r | .formatWith l r =>
    (l.Typed ∧ l.shape.isScalar) ∧ r.Typed ∧ r.shape.isScalar
  | .negate n | .not n | .isEmpty n | .format n _ | .truncate n | .toText n =>
    n.Typed ∧ n.shape.isScalar
  | .iif c t e s =>
    (c.Typed ∧ c.shape.isScalar) ∧ (t.Typed ∧ t.shape.Fits s) ∧ (e.Typed ∧ e.shape.Fits s) ∧
      s.isScalar
  | .coalesce ns s => FitsTyped s ns ∧ s.isScalar
  | .coerce n target => (n.Typed ∧ n.shape.isScalar) ∧ target.Coerces n.shape
  | .memberValue n | .singleton n => n.Typed ∧ n.shape.isMemberLike
  | .enumerate items k => ItemsTyped k items
  | .slicer k => k = 1
  | .crossJoin args site _ => ArgsTyped args ∧ site.Ranges (totalArity args)
  | .filter set c site => ArgTyped set ∧ (c.Typed ∧ c.shape.isScalar) ∧ site.Ranges (argArity set)
  | .topCount set k m site _ =>
    ArgTyped set ∧ (k.Typed ∧ k.shape.isScalar) ∧ OptTyped m ∧ ∀ s ∈ site, s.Ranges (argArity set)
  | .head set k => ArgTyped set ∧ OptTyped k
  | .order set key _ => ArgTyped set ∧ key.Typed ∧ key.shape.isScalar
  | .generate source each _ => ArgTyped source ∧ ArgTyped each
  | .sum set v | .avg set v | .extremum set v _ | .dispersion set v _ _ | .aggregate set v =>
    ArgTyped set ∧ OptTyped v
  | .percentile set v p => ArgTyped set ∧ OptTyped v ∧ OptTyped p
  | .regression _ point set y x =>
    OptTyped point ∧ ArgTyped set ∧ (y.Typed ∧ y.shape.isScalar) ∧ OptTyped x
  | .pairwise _ set x y => ArgTyped set ∧ (x.Typed ∧ x.shape.isScalar) ∧ OptTyped y
  | .count set _ => ArgTyped set

/-- An optional scalar operand. -/
def OptTyped : Option Node → Prop
  | none => True
  | some n => n.Typed ∧ n.shape.isScalar

/-- Member operands. -/
def MembersTyped : List Node → Prop
  | [] => True
  | n :: ns => (n.Typed ∧ n.shape = .member) ∧ MembersTyped ns

/-- Operands whose shapes fit `s`. -/
def FitsTyped (s : Shape) : List Node → Prop
  | [] => True
  | n :: ns => (n.Typed ∧ n.shape.Fits s) ∧ FitsTyped s ns

/-- A set operand: a typed node of a set shape. -/
def ArgTyped : SetArg → Prop
  | .mk n _ => n.Typed ∧ n.shape.category = .set

/-- Set operands. -/
def ArgsTyped : List SetArg → Prop
  | [] => True
  | a :: rest => ArgTyped a ∧ ArgsTyped rest

/-- The items of a set whose tuples have `k` members: members or tuples of that arity, or sets
of it spliced in. -/
def ItemsTyped (k : Nat) : List SetItem → Prop
  | [] => True
  | .single n :: rest => (n.Typed ∧ n.shape.isMemberLike ∧ n.shape.arity = k) ∧ ItemsTyped k rest
  | .splice a :: rest => (ArgTyped a ∧ argArity a = k) ∧ ItemsTyped k rest

end

theorem membersTyped_iff {ns : List Node} :
    MembersTyped ns ↔ ∀ n ∈ ns, n.Typed ∧ n.shape = .member := by
  induction ns with
  | nil => simp [MembersTyped]
  | cons n ns ih => simp [MembersTyped, ih]

theorem fitsTyped_iff {s : Shape} {ns : List Node} :
    FitsTyped s ns ↔ ∀ n ∈ ns, n.Typed ∧ n.shape.Fits s := by
  induction ns with
  | nil => simp [FitsTyped]
  | cons n ns ih => simp [FitsTyped, ih]

theorem argsTyped_iff {args : List SetArg} : ArgsTyped args ↔ ∀ a ∈ args, ArgTyped a := by
  induction args with
  | nil => simp [ArgsTyped]
  | cons a args ih => simp [ArgsTyped, ih]

theorem ArgTyped.shape {a : SetArg} (h : ArgTyped a) : a.node.shape = .set (argArity a) := by
  cases a with
  | mk n _ =>
    obtain ⟨-, hset⟩ := h
    simp only [SetArg.node, argArity]
    cases hs : n.shape with
    | set k => rfl
    | _ =>
      rw [hs] at hset
      cases hset

end Node

namespace Builtin

/-- The operands an implementation evaluates as scalars, beyond the branches of a conditional
and the operands of a variadic scalar function. -/
def scalarOperands : Builtin → List Nat
  | .arithmetic | .compare | .logical | .format => [0, 1]
  | .negate | .not | .isEmpty | .iif => [0]
  | .filter | .head | .order | .sum | .avg | .min | .max | .median | .var | .varP
  | .stdev | .stdevP | .aggregate => [1]
  | .topCount | .bottomCount | .percentile | .linRegSlope | .linRegIntercept | .linRegR2
  | .linRegVariance | .covariance | .covarianceN | .correlation => [1, 2]
  | .linRegPoint => [0, 2, 3]
  | _ => []

/-- The operands an implementation evaluates as members. -/
def memberOperands : Builtin → List Nat
  | .parent | .name | .children => [0]
  | _ => []

end Builtin

/-- A signature the native analysis reads right: a cross join, level members, children or
braces written so that the analysis recognises it is that implementation. -/
def FunctionSpec.NamedNatively (spec : FunctionSpec) : Prop :=
  (spec.style = .function → FunctionTable.key spec.name = FunctionTable.key "CrossJoin" →
    spec.builtin = .crossJoin) ∧
  (spec.style = .function → FunctionTable.key spec.name = FunctionTable.key "NonEmptyCrossJoin" →
    spec.builtin = .nonEmptyCrossJoin) ∧
  (spec.style = .property → FunctionTable.key spec.name = FunctionTable.key "members" →
    spec.builtin = .members) ∧
  (spec.style = .property → FunctionTable.key spec.name = FunctionTable.key "children" →
    spec.builtin = .children) ∧
  (spec.style = .braces → spec.builtin = .braces)

instance (spec : FunctionSpec) : Decidable spec.NamedNatively :=
  inferInstanceAs (Decidable (
    (spec.style = .function → FunctionTable.key spec.name = FunctionTable.key "CrossJoin" →
      spec.builtin = .crossJoin) ∧
    (spec.style = .function → FunctionTable.key spec.name = FunctionTable.key "NonEmptyCrossJoin" →
      spec.builtin = .nonEmptyCrossJoin) ∧
    (spec.style = .property → FunctionTable.key spec.name = FunctionTable.key "members" →
      spec.builtin = .members) ∧
    (spec.style = .property → FunctionTable.key spec.name = FunctionTable.key "children" →
      spec.builtin = .children) ∧
    (spec.style = .braces → spec.builtin = .braces)))

/-- A signature typed for its implementation: it fits it, declares a scalar category for every
operand read as a scalar and the member category for every operand read as a member, and the
native analysis reads it right. -/
def FunctionSpec.Typed (spec : FunctionSpec) : Prop :=
  spec.Coherent ∧ (∀ i ∈ spec.builtin.scalarOperands, (spec.argType i).isScalar) ∧
    (∀ i ∈ spec.builtin.memberOperands, spec.argType i = .member) ∧ spec.NamedNatively

instance (spec : FunctionSpec) : Decidable spec.Typed :=
  inferInstanceAs (Decidable (spec.Coherent ∧
    (∀ i ∈ spec.builtin.scalarOperands, (spec.argType i).isScalar) ∧
    (∀ i ∈ spec.builtin.memberOperands, spec.argType i = .member) ∧ spec.NamedNatively))

/-- Every signature of the table is typed for its implementation. -/
def FunctionTable.Typed (t : FunctionTable) : Prop :=
  ∀ spec ∈ t.specs, spec.Typed

instance (t : FunctionTable) : Decidable t.Typed :=
  inferInstanceAs (Decidable (∀ spec ∈ t.specs, spec.Typed))

theorem FunctionTable.Typed.coherent {t : FunctionTable} (ht : t.Typed) : t.Coherent :=
  fun spec hspec => (ht spec hspec).1

theorem FunctionTable.builtins_typed : FunctionTable.builtins.Typed := by
  have hoperands : ∀ spec ∈ builtins.specs,
      (∀ i ∈ spec.builtin.scalarOperands, (spec.argType i).isScalar) ∧
        ∀ i ∈ spec.builtin.memberOperands, spec.argType i = .member := by
    decide
  -- the names are compared after case folding, which only the kernel evaluates
  have hnamed : ∀ spec ∈ builtins.specs, spec.NamedNatively := by
    decide +kernel
  intro spec hspec
  exact ⟨builtins_coherent spec hspec, (hoperands spec hspec).1, (hoperands spec hspec).2,
    hnamed spec hspec⟩

end OlapCalc
