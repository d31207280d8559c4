import Mathlib
import OlapCalc.Proofs.ResultLimit

/-!
The odometer walks a product of tuple lists in lexicographic order.

Positions of the product are numbered from zero; the index vector at position `k` holds the
mixed-radix digits of `k`, the last digit turning fastest (`indexAt`). These vectors, listed by
position (`indexOrder`), are every index vector below the lengths, each once, in increasing
lexicographic order. One turn of the odometer moves from the vector at `k` to the one at
`k + 1` (`advance_indexAt`), so a walk that starts at the zero vector with `n` tuples to come
yields the first `n` of them (`drainFrom_indexAt`). The count it starts from is the product of
the lengths, saturating at the machine-sized limit, and so is the cardinality estimate of a
native request; when the product fits, the walk yields exactly the product the evaluator
describes (`drain_new_eq_cartesian`).
-/

namespace OlapCalc

/-- The index vector at position `k` below the lengths `ns`: the mixed-radix digits of `k`, the
last digit turning fastest. -/
def indexAt : List Nat → Nat → List Nat
  | [], _ => []
  | _ :: ns, k => (k / ns.prod) :: indexAt ns (k % ns.prod)

/-- The index vectors below the lengths `ns`, by position. -/
def indexOrder (ns : List Nat) : List (List Nat) := (List.range ns.prod).map (indexAt ns)

section IndexVectors

@[simp] theorem indexAt_nil (k : Nat) : indexAt [] k = [] := rfl

theorem indexAt_cons (n : Nat) (ns : List Nat) (k : Nat) :
    indexAt (n :: ns) k = (k / ns.prod) :: indexAt ns (k % ns.prod) := rfl

theorem div_mod_of_lt {n p k : Nat} (hk : k < n * p) : k / p < n ∧ k % p < p := by
  have hp : 0 < p := Nat.pos_of_ne_zero fun h => by simp [h] at hk
  exact ⟨Nat.div_lt_of_lt_mul (by rwa [Nat.mul_comm] at hk), Nat.mod_lt k hp⟩

theorem indexAt_zero : ∀ ns : List Nat, indexAt ns 0 = ns.map fun _ => 0
  | [] => rfl
  | _ :: ns => by simp [indexAt_cons, indexAt_zero ns]

theorem indexAt_lt : ∀ {ns : List Nat} {k : Nat}, k < ns.prod →
    List.Forall₂ (· < ·) (indexAt ns k) ns
  | [], _, _ => .nil
  | n :: ns, k, hk => by
    rw [List.prod_cons] at hk
    obtain ⟨hhead, hrest⟩ := div_mod_of_lt hk
    exact .cons hhead (indexAt_lt hrest)

theorem exists_indexAt : ∀ {ns iv : List Nat}, List.Forall₂ (· < ·) iv ns →
    ∃ k < ns.prod, indexAt ns k = iv
  | [], [], _ => ⟨0, by simp, rfl⟩
  | n :: ns, i :: iv, .cons hi hiv => by
    obtain ⟨k, hk, rfl⟩ := exists_indexAt hiv
    -- the vector `i :: iv` stands at `i * p + k`, with `p` the product of the rest
    refine ⟨i * ns.prod + k, ?_, ?_⟩
    · calc i * ns.prod + k < i * ns.prod + ns.prod := by omega
        _ = (i + 1) * ns.prod := (Nat.succ_mul i ns.prod).symm
        _ ≤ n * ns.prod := Nat.mul_le_mul_right _ hi
        _ = (n :: ns).prod := (List.prod_cons).symm
    · have hp : 0 < ns.prod := Nat.lt_of_le_of_lt (Nat.zero_le k) hk
      rw [indexAt_cons, Nat.mul_comm, Nat.mul_add_div hp, Nat.mul_add_mod,
        Nat.div_eq_of_lt hk, Nat.mod_eq_of_lt hk, Nat.add_zero]

theorem indexAt_lt_indexAt : ∀ {ns : List Nat} {j k : Nat}, j < k → k < ns.prod →
    indexAt ns j < indexAt ns k
  | [], _, _, hjk, hk => by simp at hk; omega
  | n :: ns, j, k, hjk, hk => by
    rw [List.prod_cons] at hk
    have hp : 0 < ns.prod := (div_mod_of_lt hk).2 |> Nat.lt_of_le_of_lt (Nat.zero_le _)
    rw [indexAt_cons, indexAt_cons, List.cons_lt_cons_iff]
    rcases Nat.lt_or_ge (j / ns.prod) (k / ns.prod) with hlt | hge
    · exact .inl hlt
    · -- in one block the positions differ in their rest
      have heq : j / ns.prod = k / ns.prod :=
        Nat.le_antisymm (Nat.div_le_div_right hjk.le) hge
      refine .inr ⟨heq, indexAt_lt_indexAt ?_ (Nat.mod_lt k hp)⟩
      have hj := Nat.div_add_mod j ns.prod
      have hk' := Nat.div_add_mod k ns.prod
      rw [heq] at hj
      omega

theorem length_indexOrder (ns : List Nat) : (indexOrder ns).length = ns.prod := by
  simp [indexOrder]

theorem mem_indexOrder {ns iv : List Nat} :
    iv ∈ indexOrder ns ↔ List.Forall₂ (· < ·) iv ns := by
  constructor
  · intro h
    obtain ⟨k, hk, rfl⟩ := List.mem_map.1 h
    exact indexAt_lt (List.mem_range.1 hk)
  · intro h
    obtain ⟨k, hk, rfl⟩ := exists_indexAt h
    exact List.mem_map.2 ⟨k, List.mem_range.2 hk, rfl⟩

theorem indexOrder_pairwise (ns : List Nat) : (indexOrder ns).Pairwise (· < ·) := by
  rw [indexOrder, List.pairwise_map]
  refine List.Pairwise.imp_of_mem ?_ (List.pairwise_lt_range (n := ns.prod))
  intro j k _ hk hjk
  exact indexAt_lt_indexAt hjk (List.mem_range.1 hk)

theorem map_indexAt_range (a n : Nat) (ns : List Nat) :
    (List.range (n * ns.prod)).map (indexAt (a :: ns)) =
      (List.range n).flatMap fun i => (indexOrder ns).map (i :: ·) := by
  induction n with
  | zero => simp
  | succ n ih =>
    rw [Nat.succ_mul, List.range_add, List.map_append, ih, List.range_succ, List.flatMap_append,
      List.flatMap_singleton, List.map_map, indexOrder, List.map_map]
    congr 1
    refine List.map_congr_left fun k hk => ?_
    have hk : k < ns.prod := List.mem_range.1 hk
    have hp : 0 < ns.prod := Nat.lt_of_le_of_lt (Nat.zero_le k) hk
    simp only [Function.comp_apply, indexAt_cons]
    rw [Nat.mul_comm, Nat.mul_add_div hp, Nat.mul_add_mod, Nat.div_eq_of_lt hk,
      Nat.mod_eq_of_lt hk, Nat.add_zero]

theorem indexOrder_cons (n : Nat) (ns : List Nat) :
    indexOrder (n :: ns) = (List.range n).flatMap fun i => (indexOrder ns).map (i :: ·) := by
  rw [indexOrder, List.prod_cons, map_indexAt_range]

end IndexVectors

section SaturatingCounts

theorem foldl_saturatingMul {β : Type} (g : Nat → β → Nat) (f : β → Nat)
    (hg : ∀ a x, g (min a countLimit) x = min (a * f x) countLimit) :
    ∀ (xs : List β) (a : Nat),
      xs.foldl g (min a countLimit) = min (a * (xs.map f).prod) countLimit
  | [], a => by simp
  | x :: xs, a => by
    rw [List.foldl_cons, hg, foldl_saturatingMul g f hg xs, List.map_cons, List.prod_cons,
      Nat.mul_assoc]

theorem one_le_countLimit : 1 ≤ countLimit := by decide

end SaturatingCounts

section Odometer

namespace Cartesian


theorem succ_div_mod_of_lt {p k : Nat} (h : k % p + 1 < p) :
    (k + 1) / p = k / p ∧ (k + 1) % p = k % p + 1 := by
  have hp : 0 < p := by omega
  have hk : k + 1 = p * (k / p) + (k % p + 1) := by have := Nat.div_add_mod k p; omega
  rw [hk, Nat.mul_add_div hp, Nat.mul_add_mod, Nat.div_eq_of_lt h, Nat.mod_eq_of_lt h]
  exact ⟨rfl, rfl⟩

theorem succ_div_mod_of_eq {p k : Nat} (h : k % p + 1 = p) :
    (k + 1) / p = k / p + 1 ∧ (k + 1) % p = 0 := by
  have hp : 0 < p := by omega
  have hk : k + 1 = p * (k / p + 1) := by
    have := Nat.div_add_mod k p
    rw [Nat.mul_add, Nat.mul_one]
    omega
  rw [hk, Nat.mul_div_cancel_left _ hp, Nat.mul_mod_right]
  exact ⟨rfl, rfl⟩

/-- One turn of the odometer at position `k` reaches position `k + 1`; from the last position
it wraps around to position zero with a carry left over. -/
theorem advance_indexAt : ∀ (lists : List (List Tuple)) {k : Nat},
    k < (lists.map List.length).prod →
    advance lists (indexAt (lists.map List.length) k) =
      if k + 1 < (lists.map List.length).prod then
        (indexAt (lists.map List.length) (k + 1), false)
      else (indexAt (lists.map List.length) 0, true)
  | [], k, hk => by
    have hk : k = 0 := by simpa using hk
    simp [hk, advance]
  | l :: ls, k, hk => by
    rw [List.map_cons, List.prod_cons] at hk ⊢
    obtain ⟨hhead, hrest⟩ := div_mod_of_lt hk
    simp only [indexAt_cons, advance, advance_indexAt ls hrest]
    set p := (ls.map List.length).prod
    have hk0 : k = p * (k / p) + k % p := (Nat.div_add_mod k p).symm
    by_cases hc : k % p + 1 < p
    · -- the rest turns without a carry
      obtain ⟨hdiv, hmod⟩ := succ_div_mod_of_lt hc
      have hlt : k + 1 < l.length * p :=
        calc k + 1 < p * (k / p) + p := by omega
          _ = p * (k / p + 1) := by rw [Nat.mul_add, Nat.mul_one]
          _ ≤ p * l.length := Nat.mul_le_mul_left _ hhead
          _ = l.length * p := Nat.mul_comm _ _
      simp [hc, hlt, hdiv, hmod]
    · -- the rest wraps around and carries into the first index
      have heq : k % p + 1 = p := by omega
      obtain ⟨hdiv, hmod⟩ := succ_div_mod_of_eq heq
      have hk1 : k + 1 = p * (k / p + 1) := by rw [Nat.mul_add, Nat.mul_one]; omega
      by_cases hi : k / p + 1 < l.length
      · have hlt : k + 1 < l.length * p := by
          rw [hk1, Nat.mul_comm l.length]
          exact Nat.mul_lt_mul_of_pos_left hi (by omega)
        simp [hc, hi, hlt, hdiv, hmod]
      · have hlen : l.length = k / p + 1 := by omega
        have hnlt : ¬ k + 1 < l.length * p := by
          rw [hk1, hlen, Nat.mul_comm p]
          exact Nat.lt_irrefl _
        simp [hc, hi, hnlt]

theorem next?_of_pos {c : Cartesian} (h : c.remaining ≠ 0) :
    c.next? = some (c.current,
      { c with indices := (advance c.lists c.indices).1, remaining := c.remaining - 1 }) := by
  simp [next?, h]

theorem drainGo_indexAt (lists : List (List Tuple)) : ∀ (m k : Nat) (c : Cartesian),
    c.lists = lists → c.indices = indexAt (lists.map List.length) k → c.remaining = m →
    k + m ≤ (lists.map List.length).prod →
    drain.go m c = (List.range' k m).map fun j => select lists (indexAt (lists.map List.length) j)
  | 0, _, _, _, _, _, _ => rfl
  | m + 1, k, c, hl, hi, hr, hkm => by
    rw [drain.go, next?_of_pos (by omega), Option.elim_some, List.range'_succ, List.map_cons,
      current, hl, hi]
    congr 1
    cases m with
    | zero => rfl
    | succ m =>
      -- a tuple is still to come, so the turn lands on the next position
      have hturn := advance_indexAt lists (k := k) (by omega)
      rw [if_pos (by omega)] at hturn
      exact drainGo_indexAt lists (m + 1) (k + 1) _ rfl (by simp [hturn]) (by simp [hr])
        (by omega)

theorem len_new (lists : List (List Tuple)) :
    (new lists).len =
      if lists = [] then 0 else min (lists.map List.length).prod countLimit := by
  by_cases h : lists = []
  · simp [h, new, len]
  · have hfold := foldl_saturatingMul (fun acc (l : List Tuple) => saturatingMul acc l.length)
      List.length (fun a l => saturatingMul_min a l.length) lists 1
    rw [Nat.min_eq_left one_le_countLimit, Nat.one_mul] at hfold
    simp [h, new, len, hfold]

theorem drain_new (lists : List (List Tuple)) (hne : lists ≠ [])
    (hfit : (lists.map List.length).prod ≤ countLimit) :
    (new lists).drain = (indexOrder (lists.map List.length)).map (select lists) := by
  have hlen : (new lists).remaining = (lists.map List.length).prod := by
    have := len_new lists
    rw [if_neg hne, Nat.min_eq_left hfit] at this
    exact this
  rw [drain, drainGo_indexAt lists (new lists).remaining 0 _ rfl ?_ rfl (by omega), hlen,
    indexOrder, List.map_map, List.range_eq_range']
  · rfl
  · rw [indexAt_zero, List.map_map]
    rfl

theorem length_drainGo : ∀ (m : Nat) (c : Cartesian), c.remaining = m → (drain.go m c).length = m
  | 0, _, _ => rfl
  | m + 1, c, hr => by
    rw [drain.go, next?_of_pos (by omega), Option.elim_some, List.length_cons,
      length_drainGo m _ (by simp [hr])]

theorem len_eq_length_drain (c : Cartesian) : c.len = c.drain.length :=
  (length_drainGo c.remaining c rfl).symm

theorem drain_of_next? {c c' : Cartesian} {t : Tuple} (h : c.next? = some (t, c')) :
    c.drain = t :: c'.drain := by
  have hr : c.remaining ≠ 0 := by
    intro h0
    simp [next?, h0] at h
  rw [next?_of_pos hr, Option.some.injEq, Prod.mk.injEq] at h
  obtain ⟨rfl, rfl⟩ := h
  obtain ⟨m, hm⟩ := Nat.exists_eq_succ_of_ne_zero hr
  rw [drain, hm, drain.go, next?_of_pos hr, Option.elim_some, drain, hm]
  rfl

end Cartesian

end Odometer

section ProductDescription

theorem map_range_getElem! (l : List Tuple) : (List.range l.length).map (fun i => l[i]!) = l :=
  List.ext_getElem (by simp) fun i h _ => by simp at h; simp [h]

theorem cartesian_eq_select : ∀ lists : List (List Tuple), lists ≠ [] →
    cartesian lists = (indexOrder (lists.map List.length)).map (Cartesian.select lists)
  | [], h => absurd rfl h
  | [l], _ => by
    rw [List.map_singleton, indexOrder_cons, List.map_flatMap]
    conv_lhs => rw [cartesian, ← map_range_getElem! l, List.map_eq_flatMap]
    simp [indexOrder, Cartesian.select]
  | l :: r :: rest, _ => by
    rw [cartesian_cons l (List.cons_ne_nil r rest), List.map_cons, indexOrder_cons,
      List.map_flatMap]
    conv_lhs => rw [← map_range_getElem! l, List.flatMap_map]
    refine List.flatMap_congr fun i _ => ?_
    rw [cartesian_eq_select (r :: rest) (List.cons_ne_nil r rest), List.map_map, List.map_map]
    rfl

/-- The odometer implements the product the evaluator describes, as long as it fits. -/
theorem drain_new_eq_cartesian (lists : List (List Tuple)) (hne : lists ≠ [])
    (hfit : (lists.map List.length).prod ≤ countLimit) :
    (Cartesian.new lists).drain = (TupleStream.product lists).toList := by
  rw [Cartesian.drain_new lists hne hfit, TupleStream.toList, cartesian_eq_select lists hne]

end ProductDescription

section Estimate

theorem saturatingMul_min_min (a b : Nat) :
    saturatingMul (min a countLimit) (min b countLimit) = min (a * b) countLimit := by
  rcases Nat.le_total b countLimit with hb | hb
  · rw [Nat.min_eq_left hb, saturatingMul_min]
  · rw [Nat.min_eq_right hb]
    rcases Nat.eq_zero_or_pos a with rfl | ha
    · simp [saturatingMul]
    · -- both sides reach the limit
      have hmin : 1 ≤ min a countLimit := Nat.le_min.2 ⟨ha, one_le_countLimit⟩
      unfold saturatingMul
      rw [Nat.min_eq_right (Nat.le_mul_of_pos_left _ hmin),
        Nat.min_eq_right (Nat.le_trans hb (Nat.le_mul_of_pos_left _ ha))]

theorem Env.estimate_eq (env : Env) (sources : List ArgSource) :
    env.estimate sources =
      min ((sources.map fun s => env.storedCardinality s + s.calculated.length).prod)
        countLimit := by
  have hfold := foldl_saturatingMul (fun acc s => saturatingMul acc (env.sourceCardinality s))
    (fun s => env.storedCardinality s + s.calculated.length)
    (fun a s => saturatingMul_min_min a _) sources 1
  rw [Nat.min_eq_left one_le_countLimit, Nat.one_mul] at hfold
  exact hfold

end Estimate

/-- The engine's walk over a product of tuple lists. It starts from the product of the lengths,
saturating at the machine-sized limit (nothing without lists), and yields nothing when a list is
empty. When the product fits, it yields the selection of every position in turn: every index
vector below the lengths, each once, in increasing lexicographic order, so the last index turns
fastest. At every point its count is the number of tuples still to come, and a call of `next?`
takes the first of them. A native request's estimate is likewise the saturated product of its
operands' member counts. -/
theorem cartesian_enumerates_product (lists : List (List Tuple)) :
    (Cartesian.new lists).len =
        (if lists = [] then 0 else min (lists.map List.length).prod countLimit) ∧
    (lists = [] ∨ [] ∈ lists → (Cartesian.new lists).drain = []) ∧
    (lists ≠ [] → (lists.map List.length).prod ≤ countLimit →
      (Cartesian.new lists).drain =
        (indexOrder (lists.map List.length)).map (Cartesian.select lists)) ∧
    (indexOrder (lists.map List.length)).Pairwise (· < ·) ∧
    (∀ iv, iv ∈ indexOrder (lists.map List.length) ↔
      List.Forall₂ (· < ·) iv (lists.map List.length)) ∧
    (∀ c : Cartesian, c.len = c.drain.length ∧
      ∀ t c', c.next? = some (t, c') → c.drain = t :: c'.drain) ∧
    (∀ (env : Env) (sources : List ArgSource), env.estimate sources =
      min ((sources.map fun s => env.storedCardinality s + s.calculated.length).prod)
        countLimit) := by
  refine ⟨Cartesian.len_new lists, ?_, Cartesian.drain_new lists, indexOrder_pairwise _,
    fun _ => mem_indexOrder, fun c => ⟨Cartesian.len_eq_length_drain c,
      fun _ _ h => Cartesian.drain_of_next? h⟩, Env.estimate_eq⟩
  intro hempty
  -- an empty walk has no tuples to come
  have hlen : (Cartesian.new lists).len = 0 := by
    rw [Cartesian.len_new]
    rcases hempty with h | h
    · simp [h]
    · have hzero : (lists.map List.length).prod = 0 :=
        List.prod_eq_zero (List.mem_map.2 ⟨[], h, rfl⟩)
      simp [hzero]
  exact List.eq_nil_of_length_eq_zero ((Cartesian.len_eq_length_drain _).symm.trans hlen)

/-- Two members of `A` crossed with three of `B`: the walk goes `A0/B0, A0/B1, A0/B2, A1/B0,
A1/B1, A1/B2`. -/
theorem cartesian_enumerates_product_two_by_three :
    (Cartesian.new
        [[[.child (.all 1 "A") "A0" 0], [.child (.all 1 "A") "A1" 1]],
          [[.child (.all 2 "B") "B0" 0], [.child (.all 2 "B") "B1" 1],
            [.child (.all 2 "B") "B2" 2]]]).drain =
      [[.child (.all 1 "A") "A0" 0, .child (.all 2 "B") "B0" 0],
        [.child (.all 1 "A") "A0" 0, .child (.all 2 "B") "B1" 1],
        [.child (.all 1 "A") "A0" 0, .child (.all 2 "B") "B2" 2],
        [.child (.all 1 "A") "A1" 1, .child (.all 2 "B") "B0" 0],
        [.child (.all 1 "A") "A1" 1, .child (.all 2 "B") "B1" 1],
        [.child (.all 1 "A") "A1" 1, .child (.all 2 "B") "B2" 2]] := by
  rw [(cartesian_enumerates_product _).2.2.1 (List.cons_ne_nil _ _) (by decide)]
  rfl

end OlapCalc
