import OlapCalc.Proofs.NodeTyping

/-!
The compiler builds typed nodes.

Over a typed function table every node the compiler builds is typed (`FunctionTable.compile_typed`).
Most of it is read off the signatures: an operand compiled to the category its signature
declares has the converted shape, so a scalar category gives a scalar and the member category a
member. The native sites need more: the native analysis decides from the text of an operand how
many hierarchies it ranges over, by the names of cross joins, level members, children and
braces, while the node's arity comes from shape inference through the function table. The two
agree because the names are compared after case folding on both sides and a typed table files
these implementations under these names (`flatten_arity`).
-/

namespace List

theorem forall_of_foldlM_eq_ok {ε α β : Type} {f : α → β → Except ε α} {P : β → Prop}
    (hf : ∀ a b a', f a b = .ok a' → P b) :
    ∀ {l : List β} {init r : α}, l.foldlM f init = .ok r → ∀ b ∈ l, P b
  | [], _, _, _ => fun _ h => absurd h List.not_mem_nil
  | b :: l, init, r, h => by
    rw [List.foldlM_cons] at h
    obtain ⟨a, ha, hrest⟩ := OlapCalc.bind_eq_ok.mp h
    intro b' hb'
    rcases List.mem_cons.mp hb' with rfl | hb'
    . exact hf _ _ _ ha
    . exact forall_of_foldlM_eq_ok hf hrest b' hb'

end List

namespace OlapCalc

theorem Char.toUpper_toLower (c : Char) : c.toLower.toUpper = c.toUpper := by
  unfold Char.toLower
  split
  . next hu =>
    -- an upper-case letter goes to lower case and back
    unfold Char.toUpper
    obtain ⟨h₁, h₂⟩ := hu
    rw [dif_pos, dif_neg]
    . apply Char.ext
      simp only
      rw [UInt32.add_assoc, show 'a'.val - 'A'.val + ('A'.val - 'a'.val) = 0 from rfl,
        UInt32.add_zero]
    . intro h
      simp [UInt32.le_iff_toNat_le] at h₁ h₂ h
      omega
    . simp [UInt32.le_iff_toNat_le] at h₁ h₂ ⊢
      omega
  . rfl

namespace FunctionTable

theorem key_lowerAscii (s : String) : key (Hierarchy.lowerAscii s) = key s := by
  apply String.ext
  simp only [key, Hierarchy.lowerAscii, String.toList_map, List.map_map, Function.comp_def,
    Char.toUpper_toLower]

theorem key_eq_of_sameName {a b : String} (h : Exp.sameName a b = true) : key a = key b := by
  rw [← key_lowerAscii a, ← key_lowerAscii b, eq_of_beq h]

theorem key_eq_of_lowerAscii {a b : String} (h : (Hierarchy.lowerAscii a == b) = true) :
    key a = key b := by
  rw [← key_lowerAscii a, eq_of_beq h]

end FunctionTable

namespace NativeSite

theorem enumerated_members {whole : Exp} {items : List Exp} {src : ArgSource}
    (h : enumerated whole items = .ok src) : items ≠ [] ∧ ∀ e ∈ items, ∃ m, e = .member m := by
  unfold enumerated at h
  obtain ⟨r, hfold, h⟩ := bind_eq_ok.mp h
  refine ⟨fun hnil => ?_, List.forall_of_foldlM_eq_ok (fun acc item acc' hstep => ?_) hfold⟩
  . -- without items no hierarchy is found
    subst hnil
    cases hfold
    cases h
  . -- a step reads a member, and stops the fold at anything else
    cases item with
    | member m => exact ⟨m, rfl⟩
    | _ => cases hstep

theorem flattenAll_of_crossJoinSources {args : List Exp} {srcs : List ArgSource}
    (h : crossJoinSources args = .ok srcs) : flattenAll args = .ok srcs := by
  unfold crossJoinSources at h
  obtain ⟨sources, hflat, h⟩ := bind_eq_ok.mp h
  obtain ⟨-, -, h⟩ := bind_eq_ok.mp h
  cases h
  exact hflat

end NativeSite

theorem map_eq_ok {ε α β : Type} {f : α → β} {x : Except ε α} {b : β} :
    f <$> x = .ok b ↔ ∃ a, x = .ok a ∧ f a = b := by
  cases x <;> simp [Functor.map, Except.map]

theorem compareValues_conforms {op : CompareOp} {l r v : Value}
    (h : compareValues op l r = .ok v) : v.Conforms .boolean := by
  unfold compareValues at h
  split at h
  . cases h
    trivial
  . -- the operands are ordered as texts or as numbers, along one of six paths, and each hands
    -- the ordering to the same reading: a boolean, or null without one
    simp only at h
    split at h
    case' h_2 | h_3 =>
      split at h
      -- a text compared with a non-number is compared with the other operand's text
      case' h_1 => obtain ⟨_, -, h⟩ := bind_eq_ok.mp h
    all_goals
      obtain ⟨_, -, h⟩ := bind_eq_ok.mp h
      split at h
      . cases h
        trivial
      . cases h
        trivial

theorem Returns.unified_fits (start : Nat) (shapes : List Shape)
    (hl : ∀ a ∈ shapes.drop start, a.isScalar) :
    ∀ a ∈ shapes.drop start, a.Fits ((Returns.unified start).shape shapes) := by
  have hid : (shapes.drop start).map (fun s => if s.isScalar then s else .scalar) =
      shapes.drop start := by
    conv_rhs => rw [← List.map_id (shapes.drop start)]
    exact List.map_congr_left fun a ha => if_pos (hl a ha)
  simp only [Returns.shape, hid]
  generalize shapes.drop start = l at hl ⊢
  cases l with
  | nil => exact fun a ha => absurd ha List.not_mem_nil
  | cons s rest =>
    obtain ⟨hs, hrest⟩ := Shape.fits_foldl_unify (fun a ha => hl a (List.mem_cons_of_mem s ha))
      (hl s List.mem_cons_self)
    intro a ha
    rcases List.mem_cons.mp ha with rfl | ha
    . exact hs
    . exact hrest a ha

theorem Node.itemsTyped_cons {k : Nat} {c : SetItem} {rest : List SetItem} :
    Node.ItemsTyped k (c :: rest) ↔ Node.ItemsTyped k [c] ∧ Node.ItemsTyped k rest := by
  cases c <;> simp [Node.ItemsTyped]

namespace Compiler

variable {t : FunctionTable}

open FunctionTable (key key_eq_of_sameName key_eq_of_lowerAscii)

theorem shapeOf_call_ok {fuel : Nat} {name : String} {style : CallSyntax} {args : List Exp}
    {s : Shape} (h : shapeOf t (fuel + 1) (.call name style args) = .ok s) :
    ∃ shapes spec, args.mapM (shapeOf t fuel) = .ok shapes ∧
      t.resolve name style shapes = .ok spec ∧ s = spec.returns.shape shapes := by
  rw [shapeOf_call] at h
  obtain ⟨shapes, hshapes, h⟩ := bind_eq_ok.mp h
  obtain ⟨spec, hspec, h⟩ := bind_eq_ok.mp h
  exact ⟨shapes, spec, hshapes, hspec, (Except.ok.inj h).symm⟩

theorem shapeOf_call_typed (ht : t.Typed) {fuel : Nat} {name : String} {style : CallSyntax}
    {args : List Exp} {s : Shape} (h : shapeOf t (fuel + 1) (.call name style args) = .ok s) :
    ∃ shapes, ∃ spec : FunctionSpec, args.mapM (shapeOf t fuel) = .ok shapes ∧ spec.NamedNatively ∧
      key spec.name = key name ∧ spec.style = style ∧ s = spec.builtin.returns.shape shapes := by
  obtain ⟨shapes, spec, hshapes, hres, rfl⟩ := shapeOf_call_ok h
  obtain ⟨hmem, hkey, hstyle, -, -, -⟩ := FunctionTable.resolve_chooses hres
  obtain ⟨⟨hret, -⟩, -, -, hnamed⟩ := ht spec hmem
  exact ⟨shapes, spec, hshapes, hnamed, hkey, hstyle, by rw [hret]⟩

theorem shapeOf_member {fuel : Nat} {m : Member} {s : Shape}
    (h : shapeOf t fuel (.member m) = .ok s) : s = .member := by
  cases fuel with
  | zero => cases h
  | succ fuel =>
    simp only [shapeOf] at h
    exact (Except.ok.inj h).symm

theorem braces_arity_of_members {R : Exp → Shape → Prop} (hR : ∀ m s, R (.member m) s → s = .member)
    {items : List Exp} {shapes : List Shape} (hshapes : List.Forall₂ R items shapes)
    (hne : items ≠ []) (hmembers : ∀ e ∈ items, ∃ m, e = .member m) :
    ((shapes.head?).map Shape.arity).getD 1 = 1 := by
  cases hshapes with
  | nil => exact absurd rfl hne
  | cons hhead _ =>
    obtain ⟨m, rfl⟩ := hmembers _ List.mem_cons_self
    rw [hR m _ hhead]
    rfl

theorem simpleSource_arity (ht : t.Typed) :
    ∀ {fuel : Nat} {e : Exp} {src : ArgSource} {s : Shape},
      NativeSite.simpleSource e = .ok src → shapeOf t fuel e = .ok s → s.arity = 1
  | 0, _, _, _, _, hs => by cases hs
  | fuel + 1, e, src, s, h, hs => by
    unfold NativeSite.simpleSource at h
    split at h
    . -- the members of a level
      split at h
      . next hname =>
        obtain ⟨shapes, spec, -, hnamed, hkey, hstyle, rfl⟩ := shapeOf_call_typed ht hs
        rw [hnamed.2.2.1 hstyle (hkey.trans (key_eq_of_lowerAscii hname))]
        rfl
      . cases h
    . -- the children of a stored member
      split at h
      . next hname =>
        obtain ⟨shapes, spec, -, hnamed, hkey, hstyle, rfl⟩ := shapeOf_call_typed ht hs
        rw [hnamed.2.2.2.1 hstyle
          (hkey.trans (key_eq_of_lowerAscii ((Bool.and_eq_true _ _).mp hname).1))]
        rfl
      . cases h
    . -- braces: around one simple call, or around members
      obtain ⟨shapes, spec, hshapes, hnamed, -, hstyle, rfl⟩ := shapeOf_call_typed ht hs
      rw [hnamed.2.2.2.2 hstyle]
      have hitems := List.forall₂_of_mapM_eq_ok hshapes
      unfold NativeSite.bracedSource at h
      split at h
      . cases hitems with
        | cons hsingle hnil =>
          cases hnil
          have hone : List.Forall₂ (fun e s => shapeOf t fuel e = .ok s) [_] [_] :=
            .cons hsingle .nil
          split at h
          . have harity := simpleSource_arity ht h hsingle
            exact harity
          . obtain ⟨hne, hmembers⟩ := NativeSite.enumerated_members h
            exact braces_arity_of_members (fun _ _ => shapeOf_member) hone hne hmembers
      . obtain ⟨hne, hmembers⟩ := NativeSite.enumerated_members h
        exact braces_arity_of_members (fun _ _ => shapeOf_member) hitems hne hmembers
    . -- a single member
      rw [shapeOf_member hs]
      rfl
    . cases h

theorem flattenAll_arity {R : Exp → Shape → Prop}
    (hR : ∀ {e srcs s}, NativeSite.flatten e = .ok srcs → R e s → s.arity = srcs.length) :
    ∀ {args : List Exp} {srcs : List ArgSource} {shapes : List Shape},
      NativeSite.flattenAll args = .ok srcs → List.Forall₂ R args shapes →
        (shapes.map Shape.arity).foldr (· + ·) 0 = srcs.length
  | [], srcs, shapes, h, hshapes => by
    cases hshapes
    cases h
    rfl
  | a :: rest, srcs, shapes, h, hshapes => by
    cases hshapes with
    | cons ha hrest =>
      unfold NativeSite.flattenAll at h
      obtain ⟨first, hfirst, h⟩ := bind_eq_ok.mp h
      obtain ⟨others, hothers, h⟩ := bind_eq_ok.mp h
      cases h
      rw [List.map_cons, List.foldr_cons, hR hfirst ha, flattenAll_arity hR hothers hrest,
        List.length_append]

theorem crossJoin_arity (ht : t.Typed) {fuel : Nat}
    (hflatten : ∀ {e srcs s}, NativeSite.flatten e = .ok srcs → shapeOf t fuel e = .ok s →
      s.arity = srcs.length)
    {name : String} {args : List Exp} {s : Shape} {srcs : List ArgSource}
    (hs : shapeOf t (fuel + 1) (.call name .function args) = .ok s)
    (hjoin : ∀ spec : FunctionSpec, spec.NamedNatively → spec.style = .function →
      key spec.name = key name → spec.builtin.returns = .crossJoin)
    (hflat : NativeSite.flattenAll args = .ok srcs) : s.arity = srcs.length := by
  obtain ⟨shapes, spec, hshapes, hnamed, hkey, hstyle, rfl⟩ := shapeOf_call_typed ht hs
  rw [hjoin spec hnamed hstyle hkey]
  exact flattenAll_arity hflatten hflat (List.forall₂_of_mapM_eq_ok hshapes)

/-- A cross-join operand the native analysis flattens ranges over as many hierarchies as its
shape has members. -/
theorem flatten_arity (ht : t.Typed) :
    ∀ {fuel : Nat} {e : Exp} {srcs : List ArgSource} {s : Shape},
      NativeSite.flatten e = .ok srcs → shapeOf t fuel e = .ok s → s.arity = srcs.length
  | 0, _, _, _, _, hs => by cases hs
  | fuel + 1, e, srcs, s, h, hs => by
    unfold NativeSite.flatten at h
    split at h
    . split at h
      . next hname =>
        -- a nested cross join has the arity of its operands together
        refine crossJoin_arity ht (flatten_arity ht) hs (fun spec hnamed hstyle hkey => ?_) h
        rw [hnamed.1 hstyle (hkey.trans (key_eq_of_sameName hname))]
        rfl
      . obtain ⟨src, hsrc, h⟩ := bind_eq_ok.mp h
        cases h
        exact simpleSource_arity ht hsrc hs
    . obtain ⟨src, hsrc, h⟩ := bind_eq_ok.mp h
      cases h
      exact simpleSource_arity ht hsrc hs

theorem flatten_arity_of_hasShape (ht : t.Typed) {e : Exp} {srcs : List ArgSource} {s : Shape}
    (h : NativeSite.flatten e = .ok srcs) (hs : HasShape t e s) : s.arity = srcs.length := by
  obtain ⟨fuel, hfuel⟩ := hs
  exact flatten_arity ht h hfuel

theorem memberSources_arity (ht : t.Typed) {e : Exp} {srcs : List ArgSource}
    {kind : OperandKind} {s : Shape} (h : NativeSite.memberSources e = .ok (srcs, kind))
    (hs : HasShape t e s) : s.arity = srcs.length := by
  obtain ⟨fuel, hfuel⟩ := hs
  cases fuel with
  | zero => cases hfuel
  | succ fuel =>
    unfold NativeSite.memberSources at h
    split at h
    . -- a cross join, non-empty or not, ranges over its flattened operands
      split at h
      . next hname =>
        obtain ⟨sources, hsources, h⟩ := bind_eq_ok.mp h
        cases h
        refine crossJoin_arity ht (flatten_arity ht) hfuel (fun spec hnamed hstyle hkey => ?_)
          (NativeSite.flattenAll_of_crossJoinSources hsources)
        rw [hnamed.1 hstyle (hkey.trans (key_eq_of_sameName hname))]
        rfl
      . split at h
        . next hname =>
          obtain ⟨sources, hsources, h⟩ := bind_eq_ok.mp h
          cases h
          refine crossJoin_arity ht (flatten_arity ht) hfuel (fun spec hnamed hstyle hkey => ?_)
            (NativeSite.flattenAll_of_crossJoinSources hsources)
          rw [hnamed.2.1 hstyle (hkey.trans (key_eq_of_sameName hname))]
          rfl
        . obtain ⟨src, hsrc, h⟩ := bind_eq_ok.mp h
          cases h
          exact simpleSource_arity ht hsrc hfuel
    . obtain ⟨src, hsrc, h⟩ := bind_eq_ok.mp h
      cases h
      exact simpleSource_arity ht hsrc hfuel

theorem totalArity_of_flattenAll (ht : t.Typed) :
    ∀ {args : List Exp} {srcs : List ArgSource} {sets : List SetArg},
      NativeSite.flattenAll args = .ok srcs →
      List.Forall₂ (fun e a => ∃ s, HasShape t e s ∧ a.node.shape = s.convertedTo .set) args sets →
        Node.totalArity sets = srcs.length
  | [], srcs, sets, h, hsets => by
    cases hsets
    cases h
    rfl
  | e :: rest, srcs, sets, h, hsets => by
    cases hsets with
    | cons he hrest =>
      obtain ⟨s, hs, hshape⟩ := he
      unfold NativeSite.flattenAll at h
      obtain ⟨first, hfirst, h⟩ := bind_eq_ok.mp h
      obtain ⟨others, hothers, h⟩ := bind_eq_ok.mp h
      cases h
      rw [Node.totalArity, Node.argArity_eq_node, hshape, totalArity_of_flattenAll ht hothers hrest,
        List.length_append, ← flatten_arity_of_hasShape ht hfirst hs]
      rfl

theorem ofCrossJoin_ranges (ht : t.Typed) {e : Exp} {args : List Exp} {sets : List SetArg}
    (hsets : List.Forall₂ (fun e a => ∃ s, HasShape t e s ∧ a.node.shape = s.convertedTo .set)
      args sets) :
    (NativeSite.ofCrossJoin e args).Ranges (Node.totalArity sets) := by
  intro plan hplan
  simp only [NativeSite.ofCrossJoin] at hplan
  cases hsrc : NativeSite.crossJoinSources args with
  | error err => rw [hsrc] at hplan; cases hplan
  | ok srcs =>
    rw [hsrc] at hplan
    cases hplan
    exact (totalArity_of_flattenAll ht (NativeSite.flattenAll_of_crossJoinSources hsrc) hsets).symm

theorem ranges_of_memberSources (ht : t.Typed) {site : NativeSite} {e : Exp} {a : SetArg}
    {s : Shape} (hs : HasShape t e s) (hshape : a.node.shape = s.convertedTo .set)
    (hsite : ∀ plan, site.plan = .ok plan →
      ∃ kind, NativeSite.memberSources e = .ok (plan.sources, kind)) :
    site.Ranges (Node.argArity a) := by
  intro plan hplan
  obtain ⟨kind, hsources⟩ := hsite plan hplan
  rw [Node.argArity_eq_node, hshape, ← memberSources_arity ht hsources hs]
  rfl

theorem ofTopCount_plan {e set count : Exp} {measure : Option Exp} {plan : NativePlan}
    (h : (NativeSite.ofTopCount e set count measure).plan = .ok plan) :
    ∃ kind, NativeSite.memberSources set = .ok (plan.sources, kind) := by
  simp only [NativeSite.ofTopCount] at h
  obtain ⟨⟨sources, kind⟩, hsources, h⟩ := bind_eq_ok.mp h
  obtain ⟨_, -, h⟩ := bind_eq_ok.mp h
  -- the count and the measure only fill in the template
  obtain ⟨_, -, h⟩ := bind_eq_ok.mp h
  split at h
  all_goals obtain ⟨_, -, h⟩ := bind_eq_ok.mp h
  all_goals cases h
  all_goals exact ⟨kind, hsources⟩

theorem ofFilter_plan {e set condition : Exp} {plan : NativePlan}
    (h : (NativeSite.ofFilter e set condition).plan = .ok plan) :
    ∃ kind, NativeSite.memberSources set = .ok (plan.sources, kind) := by
  simp only [NativeSite.ofFilter] at h
  obtain ⟨⟨sources, kind⟩, hsources, h⟩ := bind_eq_ok.mp h
  obtain ⟨_, -, h⟩ := bind_eq_ok.mp h
  obtain ⟨_, -, h⟩ := bind_eq_ok.mp h
  cases h
  exact ⟨kind, hsources⟩

theorem scalar_operand {n : Node} {c : Category} (hc : c.isScalar)
    (h : n.Typed ∧ ∃ s : Shape, n.shape = s.convertedTo c) : n.Typed ∧ n.shape.isScalar := by
  obtain ⟨hn, s, hs⟩ := h
  exact ⟨hn, hs ▸ s.convertedTo_isScalar hc⟩

theorem member_operand {n : Node} (h : n.Typed ∧ ∃ s : Shape, n.shape = s.convertedTo .member) :
    n.Typed ∧ n.shape = .member := by
  obtain ⟨hn, s, hs⟩ := h
  exact ⟨hn, hs⟩

theorem optTyped_of {m : Option Node} {c : Category} (hc : c.isScalar)
    (h : ∀ n ∈ m, n.Typed ∧ ∃ s : Shape, n.shape = s.convertedTo c) : Node.OptTyped m := by
  cases m with
  | none => trivial
  | some n => exact scalar_operand hc (h n rfl)

theorem convert_typed {e : Exp} {n n' : Node} {c : Category} (hn : n.Typed)
    (h : convert e n c = .ok n') : n'.Typed := by
  unfold convert at h
  generalize hs : n.shape = s at h
  dsimp only at h
  -- a node kept as it is stays typed
  split at h
  . cases h
    exact hn
  split at h
  . cases h
    exact hn
  split at h
  case h_30 =>
    split at h
    . cases h
      trivial
    . cases h
  case h_31 => cases h
  -- every other entry of the table wraps the node in a conversion its shape admits
  all_goals
    cases h
    simp +decide [Node.Typed, Node.shape, hs, hn, Shape.isScalar, Shape.isMemberLike, Shape.category,
      Category.isScalar, Category.Coerces]

theorem regression_typed {stat : RegressionStat} {arg : Nat → Except OlapError Node}
    {opt : Nat → Except OlapError (Option Node)}
    {set : Nat → List ResultStyle → Except OlapError SetArg} {n : Node}
    (hset : ∀ a, set 0 ResultStyle.iterate = .ok a → Node.ArgTyped a)
    (harg : ∀ y, arg 1 = .ok y → y.Typed ∧ y.shape.isScalar)
    (hopt : ∀ x, opt 2 = .ok x → Node.OptTyped x)
    (h : regression stat arg opt set = .ok n) : n.Typed := by
  unfold regression at h
  obtain ⟨s, hs, h⟩ := bind_eq_ok.mp h
  obtain ⟨y, hy, h⟩ := bind_eq_ok.mp h
  obtain ⟨x, hx, h⟩ := bind_eq_ok.mp h
  cases h
  exact ⟨trivial, hset s hs, harg y hy, hopt x hx⟩

theorem pairwise_typed {stat : PairStat} {arg : Nat → Except OlapError Node}
    {opt : Nat → Except OlapError (Option Node)}
    {set : Nat → List ResultStyle → Except OlapError SetArg} {n : Node}
    (hset : ∀ a, set 0 ResultStyle.iterate = .ok a → Node.ArgTyped a)
    (harg : ∀ x, arg 1 = .ok x → x.Typed ∧ x.shape.isScalar)
    (hopt : ∀ y, opt 2 = .ok y → Node.OptTyped y)
    (h : pairwise stat arg opt set = .ok n) : n.Typed := by
  unfold pairwise at h
  obtain ⟨s, hs, h⟩ := bind_eq_ok.mp h
  obtain ⟨x, hx, h⟩ := bind_eq_ok.mp h
  obtain ⟨y, hy, h⟩ := bind_eq_ok.mp h
  cases h
  exact ⟨hset s hs, harg x hx, hopt y hy⟩

/-- At nesting bound `fuel`, every function of the compiler over a typed table builds typed
nodes, of the shapes inference gives converted to the categories asked for. -/
structure TypedAt (t : FunctionTable) (fuel : Nat) : Prop where
  natural : ∀ e n, natural t fuel e = .ok n → n.Typed
  compile : ∀ e c n, compile t fuel e c = .ok n →
    n.Typed ∧ ∃ s, HasShape t e s ∧ n.shape = s.convertedTo c
  compileSet : ∀ e accepts a, compileSet t fuel e accepts = .ok a →
    Node.ArgTyped a ∧ ∃ s, HasShape t e s ∧ a.node.shape = s.convertedTo .set
  argument : ∀ spec args i n, argument t fuel spec args i = .ok n →
    n.Typed ∧ ∃ s : Shape, n.shape = s.convertedTo (spec.argType i)
  optArgument : ∀ spec args i m, optArgument t fuel spec args i = .ok m →
    ∀ n ∈ m, n.Typed ∧ ∃ s : Shape, n.shape = s.convertedTo (spec.argType i)
  setArgument : ∀ args i accepts a, setArgument t fuel args i accepts = .ok a →
    Node.ArgTyped a ∧ ∃ (e : Exp) (s : Shape), args[i]? = some e ∧ HasShape t e s ∧ a.node.shape = s.convertedTo .set
  enumItems : ∀ whole items arity r, enumItems t fuel whole items arity = .ok r →
    Node.ItemsTyped (r.2.getD 1) r.1 ∧ ∀ k, arity = some k → r.2 = some k
  allArguments : ∀ spec args i ns, allArguments t fuel spec args i = .ok ns →
    ∀ n ∈ ns, n.Typed ∧ ∃ (j : Nat) (s : Shape), n.shape = s.convertedTo (spec.argType j)
  allSets : ∀ args sets, allSets t fuel args = .ok sets → Node.ArgsTyped sets ∧
    List.Forall₂ (fun e a => ∃ s, HasShape t e s ∧ a.node.shape = s.convertedTo .set) args sets
  build : ∀ spec e name args n, spec.Typed → build t fuel spec e name args = .ok n → n.Typed

namespace TypedAt

variable {fuel : Nat}

theorem natural_succ (ht : t.Typed) (ih : TypedAt t fuel) (e : Exp) (n : Node)
    (h : Compiler.natural t (fuel + 1) e = .ok n) : n.Typed := by
  cases e with
  | call name style args =>
    rw [natural_call] at h
    obtain ⟨shapes, -, h⟩ := bind_eq_ok.mp h
    obtain ⟨spec, hspec, h⟩ := bind_eq_ok.mp h
    exact ih.build spec _ name args n (ht spec (FunctionTable.resolve_chooses hspec).1) h
  | literal l =>
    simp only [Compiler.natural] at h
    cases h
    cases l <;> trivial
  | _ =>
    simp only [Compiler.natural] at h
    cases h
    trivial

theorem compile_succ (ht : t.Typed) (ih : TypedAt t fuel) (e : Exp) (c : Category) (n : Node)
    (h : Compiler.compile t (fuel + 1) e c = .ok n) :
    n.Typed ∧ ∃ s, HasShape t e s ∧ n.shape = s.convertedTo c := by
  simp only [Compiler.compile] at h
  obtain ⟨n₀, hn₀, hconv⟩ := bind_eq_ok.mp h
  have hshape := ((shapesAt ht.coherent fuel).natural e).of_ok hn₀
  exact ⟨convert_typed (ih.natural e n₀ hn₀) hconv, n₀.shape, ⟨fuel, hshape⟩,
    (convert_shape hconv).1⟩

theorem compileSet_succ (ih : TypedAt t fuel) (e : Exp) (accepts : List ResultStyle) (a : SetArg)
    (h : Compiler.compileSet t (fuel + 1) e accepts = .ok a) :
    Node.ArgTyped a ∧ ∃ s, HasShape t e s ∧ a.node.shape = s.convertedTo .set := by
  simp only [Compiler.compileSet] at h
  obtain ⟨n, hn, h⟩ := bind_eq_ok.mp h
  obtain ⟨hnt, s, hs, hshape⟩ := ih.compile e .set n hn
  split at h
  . cases h
    exact ⟨⟨hnt, by rw [hshape]; rfl⟩, s, hs, hshape⟩
  . cases h

theorem argument_succ (ih : TypedAt t fuel) (spec : FunctionSpec) (args : List Exp) (i : Nat)
    (n : Node) (h : Compiler.argument t (fuel + 1) spec args i = .ok n) :
    n.Typed ∧ ∃ s : Shape, n.shape = s.convertedTo (spec.argType i) := by
  simp only [Compiler.argument] at h
  split at h
  . obtain ⟨hn, s, -, hshape⟩ := ih.compile _ _ n h
    exact ⟨hn, s, hshape⟩
  . cases h

theorem optArgument_succ (ih : TypedAt t fuel) (spec : FunctionSpec) (args : List Exp) (i : Nat)
    (m : Option Node) (h : Compiler.optArgument t (fuel + 1) spec args i = .ok m) :
    ∀ n ∈ m, n.Typed ∧ ∃ s : Shape, n.shape = s.convertedTo (spec.argType i) := by
  simp only [Compiler.optArgument] at h
  split at h
  . obtain ⟨n, hn, h⟩ := bind_eq_ok.mp (show _ >>= _ = _ from h)
    cases h
    intro n' hn'
    cases hn'
    obtain ⟨hnt, s, -, hshape⟩ := ih.compile _ _ n hn
    exact ⟨hnt, s, hshape⟩
  . cases h
    intro n' hn'
    cases hn'

theorem setArgument_succ (ih : TypedAt t fuel) (args : List Exp) (i : Nat)
    (accepts : List ResultStyle) (a : SetArg)
    (h : Compiler.setArgument t (fuel + 1) args i accepts = .ok a) :
    Node.ArgTyped a ∧ ∃ (e : Exp) (s : Shape), args[i]? = some e ∧ HasShape t e s ∧
      a.node.shape = s.convertedTo .set := by
  simp only [Compiler.setArgument] at h
  split at h
  . next e he =>
    obtain ⟨ha, s, hs, hshape⟩ := ih.compileSet e accepts a h
    exact ⟨ha, e, s, he, hs, hshape⟩
  . cases h

theorem allSets_succ (ih : TypedAt t fuel) (args : List Exp) (sets : List SetArg)
    (h : Compiler.allSets t (fuel + 1) args = .ok sets) :
    Node.ArgsTyped sets ∧
      List.Forall₂ (fun e a => ∃ s, HasShape t e s ∧ a.node.shape = s.convertedTo .set) args sets := by
  cases args with
  | nil =>
    simp only [Compiler.allSets] at h
    cases h
    exact ⟨trivial, .nil⟩
  | cons e rest =>
    simp only [Compiler.allSets] at h
    obtain ⟨a, ha, h⟩ := bind_eq_ok.mp h
    obtain ⟨others, hothers, h⟩ := bind_eq_ok.mp h
    cases h
    obtain ⟨hat, hashape⟩ := ih.compileSet e _ a ha
    obtain ⟨hrest, hrest'⟩ := ih.allSets rest others hothers
    exact ⟨⟨hat, hrest⟩, .cons hashape hrest'⟩

theorem allArguments_succ (ih : TypedAt t fuel) (spec : FunctionSpec) (args : List Exp)
    (i : Nat) (ns : List Node) (h : Compiler.allArguments t (fuel + 1) spec args i = .ok ns) :
    ∀ n ∈ ns, n.Typed ∧ ∃ (j : Nat) (s : Shape), n.shape = s.convertedTo (spec.argType j) := by
  simp only [Compiler.allArguments] at h
  split at h
  . obtain ⟨n, hn, h⟩ := bind_eq_ok.mp h
    obtain ⟨rest, hrest, h⟩ := bind_eq_ok.mp h
    cases h
    intro n' hn'
    rcases List.mem_cons.mp hn' with rfl | hn'
    . obtain ⟨hnt, s, hshape⟩ := ih.argument spec args i n' hn
      exact ⟨hnt, i, s, hshape⟩
    . exact ih.allArguments spec args (i + 1) rest hrest n' hn'
  . cases h
    intro n' hn'
    cases hn'

theorem enumItems_succ (ih : TypedAt t fuel) (whole : Exp) (items : List Exp)
    (arity : Option Nat) (r : List SetItem × Option Nat)
    (h : Compiler.enumItems t (fuel + 1) whole items arity = .ok r) :
    Node.ItemsTyped (r.2.getD 1) r.1 ∧ ∀ k, arity = some k → r.2 = some k := by
  cases items with
  | nil =>
    simp only [Compiler.enumItems] at h
    cases h
    exact ⟨trivial, fun k hk => hk⟩
  | cons item rest =>
    simp only [Compiler.enumItems] at h
    obtain ⟨shape, hshape, h⟩ := bind_eq_ok.mp h
    have hhas : HasShape t item shape := ⟨fuel, hshape⟩
    -- whichever way the item compiles, the rest of the items keep its arity
    have htail : ∀ m : Except OlapError SetItem, (∀ c, m = .ok c → Node.ItemsTyped shape.arity [c]) →
        (∀ k, arity = some k → k = shape.arity) →
        (do
          let compiled ← m
          let r ← Compiler.enumItems t fuel whole rest (some (arity.getD shape.arity))
          pure (compiled :: r.1, r.2)) = .ok r →
        Node.ItemsTyped (r.2.getD 1) r.1 ∧ ∀ k, arity = some k → r.2 = some k := by
      intro m hm hagree hrun
      clear h
      obtain ⟨compiled, hcompiled, hrun⟩ := bind_eq_ok.mp hrun
      obtain ⟨⟨others, arity'⟩, hothers, hrun⟩ := bind_eq_ok.mp hrun
      cases hrun
      have hgetD : arity.getD shape.arity = shape.arity := by
        cases arity with
        | none => rfl
        | some k => rw [Option.getD_some, hagree k rfl]
      obtain ⟨hrest, harity⟩ := ih.enumItems whole rest _ _ hothers
      have harity' : arity' = some shape.arity := by
        rw [← hgetD]
        exact harity _ rfl
      subst harity'
      refine ⟨Node.itemsTyped_cons.mpr ⟨hm compiled hcompiled, hrest⟩, fun k hk => ?_⟩
      rw [hagree k hk]
    have hsingle : shape.isMemberLike → ∀ c,
        SetItem.single <$> Compiler.compile t fuel item shape.category = .ok c →
        Node.ItemsTyped shape.arity [c] := by
      intro hlike c hc
      obtain ⟨n, hn, rfl⟩ := map_eq_ok.mp hc
      obtain ⟨hnt, s, hs, hns⟩ := ih.compile item _ n hn
      obtain rfl := HasShape.unique hhas hs
      rw [Shape.convertedTo_category] at hns
      exact ⟨⟨hnt, by rw [hns]; exact hlike, by rw [hns]⟩, trivial⟩
    have hsplice : ∀ c,
        SetItem.splice <$> Compiler.compileSet t fuel item ResultStyle.iterate = .ok c →
        Node.ItemsTyped shape.arity [c] := by
      intro c hc
      obtain ⟨a, ha, rfl⟩ := map_eq_ok.mp hc
      obtain ⟨hat, s, hs, has⟩ := ih.compileSet item _ a ha
      obtain rfl := HasShape.unique hhas hs
      refine ⟨⟨hat, ?_⟩, trivial⟩
      rw [Node.argArity_eq_node, has]
      rfl
    -- a fixed arity other than this item's fails the check
    have hagree : ∀ k, arity = some k → k = shape.arity := by
      intro k hk
      subst hk
      by_contra hne
      simp only [bne_iff_ne, ne_eq, hne, not_false_eq_true, ↓reduceIte] at h
      obtain ⟨_, hthrow, -⟩ := bind_eq_ok.mp h
      cases hthrow
    split at h
    . split at h
      . obtain ⟨_, hthrow, -⟩ := bind_eq_ok.mp h
        cases hthrow
      . split at h
        . exact htail _ (hsingle rfl) hagree h
        . exact htail _ (hsingle rfl) hagree h
        . exact htail _ hsplice hagree h
    . split at h
      . exact htail _ (hsingle rfl) hagree h
      . exact htail _ (hsingle rfl) hagree h
      . exact htail _ hsplice hagree h

theorem scalarArg (ih : TypedAt t fuel) {spec : FunctionSpec} {args : List Exp} {i : Nat}
    {n : Node} (hc : (spec.argType i).isScalar)
    (h : Compiler.argument t fuel spec args i = .ok n) : n.Typed ∧ n.shape.isScalar :=
  scalar_operand hc (ih.argument spec args i n h)

theorem memberArg (ih : TypedAt t fuel) {spec : FunctionSpec} {args : List Exp} {i : Nat}
    {n : Node} (hc : spec.argType i = .member)
    (h : Compiler.argument t fuel spec args i = .ok n) : n.Typed ∧ n.shape = .member := by
  have hn := ih.argument spec args i n h
  rw [hc] at hn
  exact member_operand hn

theorem optArg (ih : TypedAt t fuel) {spec : FunctionSpec} {args : List Exp} {i : Nat}
    {m : Option Node} (hc : (spec.argType i).isScalar)
    (h : Compiler.optArgument t fuel spec args i = .ok m) : Node.OptTyped m :=
  optTyped_of hc (ih.optArgument spec args i m h)

theorem setArg (ih : TypedAt t fuel) {args : List Exp} {i : Nat} {accepts : List ResultStyle}
    {a : SetArg} (h : Compiler.setArgument t fuel args i accepts = .ok a) : Node.ArgTyped a :=
  (ih.setArgument args i accepts a h).1

theorem setArg_ranges (ht : t.Typed) (ih : TypedAt t fuel) {args : List Exp}
    {accepts : List ResultStyle} {a : SetArg} {site : NativeSite}
    (h : Compiler.setArgument t fuel args 0 accepts = .ok a)
    (hsite : ∀ plan, site.plan = .ok plan →
      ∃ kind, NativeSite.memberSources (args.getD 0 default) = .ok (plan.sources, kind)) :
    site.Ranges (Node.argArity a) := by
  obtain ⟨-, e, s, he, hs, hshape⟩ := ih.setArgument args 0 accepts a h
  rw [List.getD_eq_getElem?_getD, he, Option.getD_some] at hsite
  exact ranges_of_memberSources ht hs hshape hsite

theorem build_succ (ht : t.Typed) (ih : TypedAt t fuel) (spec : FunctionSpec) (e : Exp)
    (name : String) (args : List Exp) (n : Node) (hspec : spec.Typed)
    (h : Compiler.build t (fuel + 1) spec e name args = .ok n) : n.Typed := by
  obtain ⟨⟨hret, hops, hevery, hmax⟩, hscalar, hmember, -⟩ := hspec
  obtain ⟨sname, style, minArgs, maxArgs, returns, argTypes, builtin⟩ := spec
  dsimp only at hret hops hevery hmax hscalar hmember
  subst hret
  unfold Compiler.build at h
  -- one case per implementation; each reads its operands at the categories its signature
  -- declares, which the typed signature makes scalars, members or sets
  cases builtin
  all_goals simp only [Builtin.returns, Builtin.operands, Builtin.everyOperand?,
    Builtin.scalarOperands, Builtin.memberOperands, List.mem_cons, List.not_mem_nil, or_false,
    forall_eq_or_imp, forall_eq, Option.mem_def, reduceCtorEq, Builtin.maxOperands?,
    false_imp_iff, Option.some.injEq, forall_const,
    forall_eq'] at hops hevery hmax hscalar hmember h
  case arithmetic =>
    split at h
    . split at h
      . next folded hfold =>
        cases h
        -- an operation on two numeric literals folds to a number constant
        split at hfold
        . split at hfold
          . split at hfold
            . cases hfold
              exact Value.conforms_ofOptFloat _
            . cases hfold
          . cases hfold
        . cases hfold
      . obtain ⟨l, hl, h⟩ := bind_eq_ok.mp h
        obtain ⟨r, hr, h⟩ := bind_eq_ok.mp h
        cases h
        exact ⟨ih.scalarArg hscalar.1 hl, ih.scalarArg hscalar.2 hr⟩
    . cases h
  case compare =>
    split at h
    . split at h
      . next folded hfold =>
        cases h
        -- a comparison of two literals folds to the boolean or null it gives
        split at hfold
        . split at hfold
          . next v hv =>
            cases hfold
            exact compareValues_conforms hv
          . cases hfold
        . cases hfold
      . obtain ⟨l, hl, h⟩ := bind_eq_ok.mp h
        obtain ⟨r, hr, h⟩ := bind_eq_ok.mp h
        cases h
        exact ⟨ih.scalarArg hscalar.1 hl, ih.scalarArg hscalar.2 hr⟩
    . cases h
  case negate =>
    split at h
    . cases h
      trivial
    . obtain ⟨a, ha, h⟩ := bind_eq_ok.mp h
      cases h
      exact ih.scalarArg hscalar ha
  case logical =>
    split at h
    . cases h
      trivial
    . obtain ⟨l, hl, h⟩ := bind_eq_ok.mp h
      obtain ⟨r, hr, h⟩ := bind_eq_ok.mp h
      cases h
      exact ⟨ih.scalarArg hscalar.1 hl, ih.scalarArg hscalar.2 hr⟩
  case not | isEmpty =>
    obtain ⟨a, ha, h⟩ := bind_eq_ok.mp h
    cases h
    exact ih.scalarArg hscalar ha
  case iif =>
    obtain ⟨c, hc, h⟩ := bind_eq_ok.mp h
    obtain ⟨a, ha, h⟩ := bind_eq_ok.mp h
    obtain ⟨b, hb, h⟩ := bind_eq_ok.mp h
    cases h
    obtain ⟨hat, has⟩ := ih.scalarArg (by rw [hops.1]; rfl) ha
    obtain ⟨hbt, hbs⟩ := ih.scalarArg (by rw [hops.2]; rfl) hb
    -- both branches fit the shape the two of them unify to
    have hfits := Returns.unified_fits 1 [c.shape, a.shape, b.shape] (by simp [has, hbs])
    exact ⟨ih.scalarArg hscalar hc, ⟨hat, hfits _ (by simp)⟩, ⟨hbt, hfits _ (by simp)⟩,
      Returns.unified_isScalar 1 _⟩
  case coalesceEmpty =>
    obtain ⟨ns, hns, h⟩ := bind_eq_ok.mp h
    cases h
    have hall : ∀ n ∈ ns, n.Typed ∧ n.shape.isScalar := by
      intro n hn
      obtain ⟨hnt, j, s, hs⟩ := ih.allArguments _ args 0 ns hns n hn
      rw [FunctionSpec.argType_of_forall hevery.1 hevery.2 j] at hs
      exact scalar_operand rfl ⟨hnt, s, hs⟩
    have hfits := Returns.unified_fits 0 (ns.map Node.shape) (by simpa using fun n hn => (hall n hn).2)
    constructor
    . apply Node.fitsTyped_iff.mpr
      intro n hn
      exact ⟨(hall n hn).1, hfits n.shape (List.mem_map_of_mem hn)⟩
    . exact Returns.unified_isScalar 0 _
  case format =>
    obtain ⟨v, hv, h⟩ := bind_eq_ok.mp h
    split at h
    . cases h
      exact ih.scalarArg hscalar.1 hv
    . obtain ⟨w, hw, h⟩ := bind_eq_ok.mp h
      cases h
      exact ⟨ih.scalarArg hscalar.1 hv, ih.scalarArg hscalar.2 hw⟩
  case currentMember | defaultMember | members =>
    split at h
    . cases h
      trivial
    . cases h
  case parent | name | children =>
    obtain ⟨a, ha, h⟩ := bind_eq_ok.mp h
    cases h
    exact ih.memberArg hmember ha
  case tuple =>
    obtain ⟨ns, hns, h⟩ := bind_eq_ok.mp h
    cases h
    apply Node.membersTyped_iff.mpr
    intro n hn
    obtain ⟨hnt, j, s, hs⟩ := ih.allArguments _ args 0 ns hns n hn
    rw [FunctionSpec.argType_of_forall hevery.1 hevery.2 j] at hs
    exact ⟨hnt, hs⟩
  case braces =>
    obtain ⟨r, hr, h⟩ := bind_eq_ok.mp h
    cases h
    exact (ih.enumItems e args none r hr).1
  case crossJoin | nonEmptyCrossJoin =>
    obtain ⟨sets, hsets, h⟩ := bind_eq_ok.mp h
    cases h
    obtain ⟨htyped, hshapes⟩ := ih.allSets args sets hsets
    exact ⟨htyped, ofCrossJoin_ranges ht hshapes⟩
  case filter =>
    obtain ⟨s, hs, h⟩ := bind_eq_ok.mp h
    obtain ⟨c, hc, h⟩ := bind_eq_ok.mp h
    cases h
    exact ⟨ih.setArg hs, ih.scalarArg hscalar hc,
      ih.setArg_ranges ht hs fun _ hplan => ofFilter_plan hplan⟩
  case topCount =>
    obtain ⟨s, hs, h⟩ := bind_eq_ok.mp h
    obtain ⟨k, hk, h⟩ := bind_eq_ok.mp h
    obtain ⟨m, hm, h⟩ := bind_eq_ok.mp h
    cases h
    refine ⟨ih.setArg hs, ih.scalarArg hscalar.1 hk, ih.optArg hscalar.2 hm, ?_⟩
    intro site hsite
    cases hsite
    exact ih.setArg_ranges ht hs fun _ hplan => ofTopCount_plan hplan
  case bottomCount =>
    obtain ⟨s, hs, h⟩ := bind_eq_ok.mp h
    obtain ⟨k, hk, h⟩ := bind_eq_ok.mp h
    obtain ⟨m, hm, h⟩ := bind_eq_ok.mp h
    cases h
    exact ⟨ih.setArg hs, ih.scalarArg hscalar.1 hk, ih.scalarArg hscalar.2 hm,
      fun _ hsite => by cases hsite⟩
  case head =>
    obtain ⟨s, hs, h⟩ := bind_eq_ok.mp h
    obtain ⟨k, hk, h⟩ := bind_eq_ok.mp h
    cases h
    exact ⟨ih.setArg hs, ih.optArg hscalar hk⟩
  case order =>
    obtain ⟨s, hs, h⟩ := bind_eq_ok.mp h
    obtain ⟨key, hkey, h⟩ := bind_eq_ok.mp h
    -- the sort flag only picks the direction
    split at h
    all_goals obtain ⟨_, -, h⟩ := bind_eq_ok.mp h
    all_goals cases h
    all_goals exact ⟨ih.setArg hs, ih.scalarArg hscalar hkey⟩
  case generate =>
    obtain ⟨source, hsource, h⟩ := bind_eq_ok.mp h
    obtain ⟨each, heach, h⟩ := bind_eq_ok.mp h
    split at h
    all_goals obtain ⟨_, -, h⟩ := bind_eq_ok.mp h
    all_goals cases h
    all_goals exact ⟨ih.setArg hsource, ih.setArg heach⟩
  case slicer =>
    cases h
    rfl
  case count =>
    split at h
    all_goals obtain ⟨_, -, h⟩ := bind_eq_ok.mp h
    all_goals obtain ⟨s, hs, h⟩ := bind_eq_ok.mp h
    all_goals cases h
    all_goals exact ih.setArg hs
  case sum | avg | min | max | var | varP | stdev | stdevP | aggregate =>
    obtain ⟨s, hs, h⟩ := bind_eq_ok.mp h
    obtain ⟨v, hv, h⟩ := bind_eq_ok.mp h
    cases h
    exact ⟨ih.setArg hs, ih.optArg hscalar hv⟩
  case median =>
    obtain ⟨s, hs, h⟩ := bind_eq_ok.mp h
    obtain ⟨v, hv, h⟩ := bind_eq_ok.mp h
    cases h
    exact ⟨ih.setArg hs, ih.optArg hscalar hv, trivial⟩
  case percentile =>
    obtain ⟨s, hs, h⟩ := bind_eq_ok.mp h
    obtain ⟨v, hv, h⟩ := bind_eq_ok.mp h
    obtain ⟨p, hp, h⟩ := bind_eq_ok.mp h
    cases h
    exact ⟨ih.setArg hs, ih.scalarArg hscalar.1 hv, ih.scalarArg hscalar.2 hp⟩
  case linRegSlope | linRegIntercept | linRegR2 | linRegVariance =>
    exact regression_typed (fun _ ha => ih.setArg ha) (fun _ hy => ih.scalarArg hscalar.1 hy)
      (fun _ hx => ih.optArg hscalar.2 hx) h
  case linRegPoint =>
    obtain ⟨x, hx, h⟩ := bind_eq_ok.mp h
    obtain ⟨s, hs, h⟩ := bind_eq_ok.mp h
    obtain ⟨y, hy, h⟩ := bind_eq_ok.mp h
    obtain ⟨xs, hxs, h⟩ := bind_eq_ok.mp h
    cases h
    exact ⟨ih.scalarArg hscalar.1 hx, ih.setArg hs, ih.scalarArg hscalar.2.1 hy,
      ih.optArg hscalar.2.2 hxs⟩
  case covariance | covarianceN | correlation =>
    exact pairwise_typed (fun _ ha => ih.setArg ha) (fun _ hx => ih.scalarArg hscalar.1 hx)
      (fun _ hy => ih.optArg hscalar.2 hy) h

end TypedAt

theorem typedAt (ht : t.Typed) : ∀ fuel, TypedAt t fuel
  | 0 => by
    -- nothing compiles without fuel
    refine ⟨fun _ _ h => ?_, fun _ _ _ h => ?_, fun _ _ _ h => ?_, fun _ _ _ _ h => ?_,
      fun _ _ _ _ h => ?_, fun _ _ _ _ h => ?_, fun _ _ _ _ h => ?_, fun _ _ _ _ h => ?_,
      fun _ _ h => ?_, fun _ _ _ _ _ _ h => ?_⟩
    all_goals
      simp only [Compiler.natural, Compiler.compile, Compiler.compileSet, Compiler.argument,
        Compiler.optArgument, Compiler.setArgument, Compiler.enumItems, Compiler.allArguments,
        Compiler.allSets, Compiler.build] at h
      cases h
  | fuel + 1 =>
    have ih := typedAt ht fuel
    ⟨TypedAt.natural_succ ht ih, TypedAt.compile_succ ht ih, TypedAt.compileSet_succ ih,
      TypedAt.argument_succ ih, TypedAt.optArgument_succ ih, TypedAt.setArgument_succ ih,
      TypedAt.enumItems_succ ih, TypedAt.allArguments_succ ih, TypedAt.allSets_succ ih,
      TypedAt.build_succ ht ih⟩

end Compiler

namespace FunctionTable

variable {t : FunctionTable}

/-- Over a typed table, compilation builds typed nodes, of a shape converted to the category
asked for. -/
theorem compile_typed (ht : t.Typed) {e : Exp} {c : Category} {n : Node}
    (h : t.compile e c = .ok n) : n.Typed ∧ ∃ s : Shape, n.shape = s.convertedTo c := by
  obtain ⟨hn, s, -, hs⟩ := (Compiler.typedAt ht e.fuel).compile e c n h
  exact ⟨hn, s, hs⟩

theorem compileSet_typed (ht : t.Typed) {e : Exp} {accepts : List ResultStyle} {a : SetArg}
    (h : t.compileSet e accepts = .ok a) : Node.ArgTyped a :=
  ((Compiler.typedAt ht e.fuel).compileSet e accepts a h).1

end FunctionTable

end OlapCalc
