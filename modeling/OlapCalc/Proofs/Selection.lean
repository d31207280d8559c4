import Mathlib

/-!
Scans that keep the first best candidate.

Overload resolution and the choice of the calculated member that decides a cell both walk a
list once, holding the best candidate seen so far and replacing it only by a candidate that is
strictly better. `keepGreater v key` is one step of such a walk: `v` gives an element's data,
`none` for an element that is no candidate, and `key` ranks candidates in a linear order.

Main statement: the walk ends with the leftmost candidate of greatest key
(`LeftmostGreatest`), and with nothing exactly when the list holds no candidate
(`foldl_keepGreater`). There is one leftmost greatest candidate, so the result is determined
by the ranking alone.
-/

namespace OlapCalc

section Selection

variable {α β κ : Type} [LinearOrder κ]

/-- Position `i` of `l` holds `a`, a candidate of key `k` that no candidate of `l` outranks and
that every candidate before it ranks below. -/
structure LeftmostGreatest (w : α → Option κ) (l : List α) (i : Nat) (a : α) (k : κ) : Prop where
  get : l[i]? = some a
  weight : w a = some k
  le : ∀ (j : Nat) b k', l[j]? = some b → w b = some k' → k' ≤ k
  lt : ∀ (j : Nat) b k', j < i → l[j]? = some b → w b = some k' → k' < k

/-- One step of the walk: a candidate whose key is greater than the best one's replaces it. -/
def keepGreater (v : α → Option β) (key : α → β → κ) (best : Option (α × β)) (a : α) :
    Option (α × β) :=
  (v a).elim best fun x =>
    best.elim (some (a, x)) fun b => if key b.1 b.2 < key a x then some (a, x) else best

theorem getElem?_append_singleton {l : List α} {b c : α} {j : Nat}
    (h : (l ++ [b])[j]? = some c) : (j < l.length ∧ l[j]? = some c) ∨ (j = l.length ∧ c = b) := by
  rcases Nat.lt_or_ge j l.length with hj | hj
  . rw [List.getElem?_append_left hj] at h
    exact .inl ⟨hj, h⟩
  . rw [List.getElem?_append_right hj] at h
    rcases Nat.eq_or_lt_of_le hj with rfl | hlt
    . simp only [Nat.sub_self, List.getElem?_cons_zero, Option.some.injEq] at h
      exact .inr ⟨rfl, h.symm⟩
    . rw [List.getElem?_eq_none (by simp; omega)] at h
      cases h

namespace LeftmostGreatest

variable {w : α → Option κ} {l : List α} {i i' : Nat} {a a' b : α} {k k' : κ}

theorem unique (h : LeftmostGreatest w l i a k) (h' : LeftmostGreatest w l i' a' k') :
    i = i' ∧ a = a' ∧ k = k' := by
  have hi : i = i' := by
    rcases lt_trichotomy i i' with hlt | heq | hgt
    . exact absurd (h'.lt i a k hlt h.get h.weight) (not_lt.2 (h.le i' a' k' h'.get h'.weight))
    . exact heq
    . exact absurd (h.lt i' a' k' hgt h'.get h'.weight) (not_lt.2 (h'.le i a k h.get h.weight))
  subst hi
  have ha : a = a' := Option.some.inj (h.get.symm.trans h'.get)
  subst ha
  exact ⟨rfl, rfl, Option.some.inj (h.weight.symm.trans h'.weight)⟩

theorem append_le (h : LeftmostGreatest w l i a k) (hb : ∀ k', w b = some k' → k' ≤ k) :
    LeftmostGreatest w (l ++ [b]) i a k := by
  have hi : i < l.length := (List.getElem?_eq_some_iff.1 h.get).1
  refine ⟨by rw [List.getElem?_append_left hi, h.get], h.weight, fun j c k' hc hk' => ?_,
    fun j c k' hji hc hk' => ?_⟩
  . rcases getElem?_append_singleton hc with ⟨-, hc⟩ | ⟨-, rfl⟩
    . exact h.le j c k' hc hk'
    . exact hb k' hk'
  . rcases getElem?_append_singleton hc with ⟨-, hc⟩ | ⟨rfl, -⟩
    . exact h.lt j c k' hji hc hk'
    . omega

theorem append_gt (h : LeftmostGreatest w l i a k) (hb : w b = some k') (hlt : k < k') :
    LeftmostGreatest w (l ++ [b]) l.length b k' := by
  refine ⟨List.getElem?_concat_length, hb, fun j c k'' hc hk'' => ?_, fun j c k'' hj hc hk'' => ?_⟩
  . rcases getElem?_append_singleton hc with ⟨-, hc⟩ | ⟨-, rfl⟩
    . exact ((h.le j c k'' hc hk'').trans_lt hlt).le
    . exact (Option.some.inj (hk''.symm.trans hb)).le
  . rcases getElem?_append_singleton hc with ⟨-, hc⟩ | ⟨rfl, -⟩
    . exact (h.le j c k'' hc hk'').trans_lt hlt
    . omega

theorem append_first (hl : ∀ x ∈ l, w x = none) (hb : w b = some k') :
    LeftmostGreatest w (l ++ [b]) l.length b k' := by
  have hnone : ∀ j c, l[j]? = some c → w c = none := fun j c hc =>
    hl c (List.mem_of_getElem? hc)
  refine ⟨List.getElem?_concat_length, hb, fun j c k'' hc hk'' => ?_, fun j c k'' hj hc hk'' => ?_⟩
  . rcases getElem?_append_singleton hc with ⟨-, hc⟩ | ⟨-, rfl⟩
    . rw [hnone j c hc] at hk''
      cases hk''
    . exact (Option.some.inj (hk''.symm.trans hb)).le
  . rcases getElem?_append_singleton hc with ⟨-, hc⟩ | ⟨rfl, -⟩
    . rw [hnone j c hc] at hk''
      cases hk''
    . omega

end LeftmostGreatest

variable (v : α → Option β) (key : α → β → κ)

/-- The walk over a list ends with nothing exactly when the list has no candidate, and
otherwise with the leftmost candidate of greatest key and its data. -/
theorem foldl_keepGreater {f : Option (α × β) → α → Option (α × β)}
    (hf : ∀ best a, f best a = keepGreater v key best a) (l : List α) :
    (l.foldl f none = none ↔ ∀ a ∈ l, v a = none) ∧
      ∀ a x, l.foldl f none = some (a, x) →
        v a = some x ∧ ∃ i, LeftmostGreatest (fun b => (v b).map (key b)) l i a (key a x) := by
  obtain rfl : f = keepGreater v key := funext fun best => funext (hf best)
  induction l using List.reverseRecOn with
  | nil => simp
  | append_singleton l b ih =>
    rw [List.foldl_append, List.foldl_cons, List.foldl_nil, List.forall_mem_append,
      List.forall_mem_singleton]
    cases hv : v b with
    | none =>
      -- an element that is no candidate leaves the walk where it was
      simp only [keepGreater, hv, Option.elim_none]
      refine ⟨by simp [ih.1], fun a x h => ?_⟩
      obtain ⟨hx, i, hi⟩ := ih.2 a x h
      exact ⟨hx, i, hi.append_le fun k' hk' => by simp [hv] at hk'⟩
    | some x =>
      rcases hr : l.foldl (keepGreater v key) none with _ | ⟨c, y⟩
      . -- the first candidate is the best one so far
        simp only [keepGreater, hv, Option.elim_some, Option.elim_none]
        refine ⟨by simp, fun a x' h => ?_⟩
        cases h
        exact ⟨hv, l.length,
          LeftmostGreatest.append_first (fun x hx => by simp [ih.1.1 hr x hx]) (by simp [hv])⟩
      . obtain ⟨hy, i, hi⟩ := ih.2 c y hr
        simp only [keepGreater, hv, Option.elim_some]
        refine ⟨by split_ifs <;> simp, fun a x' h => ?_⟩
        split_ifs at h with hlt
        . cases h
          exact ⟨hv, l.length, hi.append_gt (by simp [hv]) hlt⟩
        . cases h
          refine ⟨hy, i, hi.append_le fun k' hk' => ?_⟩
          simp only [hv, Option.map_some, Option.some.injEq] at hk'
          rw [← hk']
          exact not_lt.1 hlt

end Selection

end OlapCalc
