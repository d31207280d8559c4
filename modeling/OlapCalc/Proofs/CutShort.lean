import OlapCalc.Proofs.Scope

/-!
Runs under a result limit beside the same runs without one.

An operator that streams its result through a limiter of `K` tuples runs in step with the same
operator streaming through a limiter without a limit: they make the same nested evaluations,
count the same and fail alike, until the limited one reaches a tuple past the `K`-th, where it
stops with the limit and the other goes on to a result of more than `K` tuples. `CutShort` is
this relation between two runs, built up by rules for the steps of the operators' loops: a push,
a claim of room, a step both runs take alike, a loop. `LimitedBy` is what it means for the
results. `Yields` and `Quiet` say what every result of one run satisfies, the latter for a run
that counts nothing.
-/

namespace OlapCalc

namespace Limiter

/-- A limiter of `K` holding what the unlimited `l0` holds, which fits the limit. -/
structure Capped (K : Nat) (lK l0 : Limiter) : Prop where
  limit : lK.limit = K
  unlimited : l0.limit = 0
  tuples : lK.tuples = l0.tuples
  fits : l0.tuples.size ≤ K

/-- Holding more tuples than a limit of `K`. -/
def Over (K : Nat) (l : Limiter) : Prop := K < l.tuples.size

theorem exceeded_eq_true {l : Limiter} {n : Nat} : l.exceeded n = true ↔ l.limit ≠ 0 ∧ l.limit < n := by
  simp [exceeded]

theorem push_unlimited {l : Limiter} (h : l.limit = 0) (t : Tuple) :
    l.push t = .ok { l with tuples := l.tuples.push t } := by
  rw [push, if_neg (by simp [exceeded_eq_true, h])]
  rfl

theorem ensureRoom_unlimited {l : Limiter} (h : l.limit = 0) (n : Nat) : l.ensureRoom n = .ok () := by
  rw [ensureRoom, if_neg (by simp [exceeded_eq_true, h])]
  rfl

section Capped

variable {K : Nat} {lK l0 : Limiter}

theorem Capped.push_fits (hcap : Capped K lK l0) {t : Tuple} (hn : l0.tuples.size + 1 ≤ K) :
    lK.push t = .ok { lK with tuples := lK.tuples.push t } := by
  rw [push, if_neg (by simp [exceeded_eq_true, hcap.limit, hcap.tuples]; omega)]
  rfl

theorem Capped.push_over (hK : 0 < K) (hcap : Capped K lK l0) {t : Tuple}
    (hn : K < l0.tuples.size + 1) : lK.push t = .error (.resourceLimit K) := by
  rw [push, if_pos (by simp [exceeded_eq_true, hcap.limit, hcap.tuples]; omega), hcap.limit]
  rfl

theorem Capped.ensureRoom_fits (hcap : Capped K lK l0) {n : Nat} (hn : l0.tuples.size + n ≤ K) :
    lK.ensureRoom n = .ok () := by
  rw [ensureRoom, if_neg (by simp [exceeded_eq_true, hcap.limit, hcap.tuples]; omega)]
  rfl

theorem Capped.ensureRoom_over (hK : 0 < K) (hcap : Capped K lK l0) {n : Nat}
    (hn : K < l0.tuples.size + n) : lK.ensureRoom n = .error (.resourceLimit K) := by
  rw [ensureRoom, if_pos (by simp [exceeded_eq_true, hcap.limit, hcap.tuples]; omega), hcap.limit]
  rfl

theorem push_tuples {l l' : Limiter} {t : Tuple} (h : l.push t = .ok l') :
    l'.tuples = l.tuples.push t := by
  unfold push at h
  split at h
  . cases h
  . cases h
    rfl

theorem push_size {l l' : Limiter} {t : Tuple} (h : l.push t = .ok l') :
    l'.tuples.size = l.tuples.size + 1 := by
  rw [push_tuples h, Array.size_push]

theorem Capped.push (hcap : Capped K lK l0) (t : Tuple) (hn : l0.tuples.size + 1 ≤ K) :
    Capped K { lK with tuples := lK.tuples.push t } { l0 with tuples := l0.tuples.push t } :=
  ⟨hcap.limit, hcap.unlimited, by simp [hcap.tuples], by simpa using hn⟩

theorem Capped.empty (K : Nat) : Capped K ⟨K, #[]⟩ ⟨0, #[]⟩ := ⟨rfl, rfl, rfl, Nat.zero_le K⟩

theorem Capped.eq_limited (hcap : Capped K lK l0) : lK = { l0 with limit := K } := by
  obtain ⟨hlimit, -, htuples, -⟩ := hcap
  cases lK
  simp_all

theorem Capped.eq_unlimited (hcap : Capped K lK l0) : l0 = { lK with limit := 0 } := by
  obtain ⟨-, hlimit, htuples, -⟩ := hcap
  cases l0
  simp_all

end Capped

end Limiter

theorem liftExcept_ok {m : Type → Type} [Monad m] [MonadExceptOf OlapError m] {α : Type} (a : α) :
    (liftExcept (.ok a) : m α) = pure a := rfl

namespace EvalAt

variable {α β : Type}

/-- The runs of `mK` under a result limit of `K` and of `m0` under none, from any context and
counts: both give related results with the same counts, or both fail alike, or `mK` fails with
the limit where every result `m0` can give is over it. -/
def CutShort (K : Nat) (R : α → α → Prop) (Over : α → Prop) (mK m0 : EvalAt α) : Prop :=
  ∀ ctx c,
    (∃ a b c', (mK.run ctx).run.run c = (.ok a, c') ∧ (m0.run ctx).run.run c = (.ok b, c') ∧
      R a b) ∨
    (∃ e c', (mK.run ctx).run.run c = (.error e, c') ∧ (m0.run ctx).run.run c = (.error e, c')) ∨
    ((mK.run ctx).run.run c).1 = .error (.resourceLimit K) ∧
      ∀ b, ((m0.run ctx).run.run c).1 = .ok b → Over b

/-- Every result of `m` satisfies `P`. -/
def Yields (P : α → Prop) (m : EvalAt α) : Prop :=
  ∀ ctx c b, ((m.run ctx).run.run c).1 = .ok b → P b

/-- Both loops go on, with related states. -/
def GoOn (R : α → α → Prop) (sK s0 : ForInStep α) : Prop :=
  ∃ a b, sK = .yield a ∧ s0 = .yield b ∧ R a b

theorem run_bind (x : EvalAt α) (f : α → EvalAt β) (ctx : Context) (c : Counters) :
    ((x >>= f).run ctx).run.run c = ((x.run ctx) >>= fun a => (f a).run ctx).run.run c := rfl

namespace Yields

theorem pure {P : α → Prop} {a : α} (h : P a) : Yields P (Pure.pure a) := by
  intro _ _ b hb
  cases hb
  exact h

theorem bind {P : α → Prop} {Q : β → Prop} {m : EvalAt α} {f : α → EvalAt β} (hm : Yields P m)
    (hf : ∀ a, P a → Yields Q (f a)) : Yields Q (m >>= f) := by
  intro ctx c b hb
  rw [run_bind, EvalOn.run_bind] at hb
  rcases h : (m.run ctx).run.run c with ⟨_ | a, c'⟩ <;> rw [h] at hb
  . cases hb
  . exact hf a (hm ctx c a (by rw [h])) ctx c' b hb

theorem trivial {m : EvalAt α} : Yields (fun _ => True) m := fun _ _ _ _ => True.intro

theorem push {K : Nat} {l : Limiter} (h : Limiter.Over K l) (t : Tuple) :
    Yields (Limiter.Over K) (liftExcept (l.push t)) := by
  cases hp : l.push t with
  | ok l' =>
    refine pure ?_
    simp only [Limiter.Over, Limiter.push_size hp] at h ⊢
    omega
  | error e => intro _ _ b hb; cases hb

theorem imp {P Q : α → Prop} {m : EvalAt α} (h : Yields P m) (hPQ : ∀ a, P a → Q a) :
    Yields Q m :=
  fun ctx c a ha => hPQ a (h ctx c a ha)

theorem liftExcept {P : α → Prop} {x : Except OlapError α} (h : ∀ a, x = .ok a → P a) :
    Yields P (OlapCalc.liftExcept x) := by
  cases x with
  | ok a => exact pure (h a rfl)
  | error e => intro _ _ b hb; cases hb

theorem forIn {γ : Type} {I : α → Prop} {f : γ → α → EvalAt (ForInStep α)}
    (hf : ∀ t a, I a → Yields (fun s => I s.value) (f t a)) :
    ∀ (ts : List γ) (a : α), I a → Yields I (forIn ts a f)
  | [], _, ha => pure ha
  | t :: ts, a, ha => by
    rw [List.forIn_cons]
    refine bind (hf t a ha) fun s hs => ?_
    cases s with
    | done b => exact pure hs
    | yield b => exact forIn hf ts b hs

theorem forIn_prefix {γ : Type} {I : List γ → α → Prop} {f : γ → α → EvalAt (ForInStep α)}
    (hf : ∀ done t a, I done a → Yields (fun s => ∃ b, s = .yield b ∧ I (done ++ [t]) b) (f t a)) :
    ∀ (ts done : List γ) (a : α), I done a → Yields (I (done ++ ts)) (ForIn.forIn ts a f)
  | [], done, _, ha => by
    rw [List.append_nil]
    exact pure ha
  | t :: ts, done, a, ha => by
    rw [List.forIn_cons]
    refine bind (hf done t a ha) fun s hs => ?_
    obtain ⟨b, rfl, hb⟩ := hs
    have := forIn_prefix hf ts (done ++ [t]) b hb
    rwa [List.append_assoc, List.singleton_append] at this

end Yields

theorem Yields.throw {P : α → Prop} (e : OlapError) : Yields P (MonadExcept.throw e) :=
  fun _ _ _ hb => nomatch hb

/-- `m` counts nothing, and every result of it satisfies `P`. -/
def Quiet (P : α → Prop) (m : EvalAt α) : Prop :=
  ∀ ctx c, ((m.run ctx).run.run c).2 = c ∧ ∀ a, ((m.run ctx).run.run c).1 = .ok a → P a

namespace Quiet

theorem yields {P : α → Prop} {m : EvalAt α} (h : Quiet P m) : Yields P m :=
  fun ctx c => (h ctx c).2

theorem pure {P : α → Prop} {a : α} (h : P a) : Quiet P (Pure.pure a) :=
  fun _ _ => ⟨rfl, fun _ hb => by cases hb; exact h⟩

theorem bind {P : α → Prop} {Q : β → Prop} {m : EvalAt α} {f : α → EvalAt β} (hm : Quiet P m)
    (hf : ∀ a, P a → Quiet Q (f a)) : Quiet Q (m >>= f) := by
  intro ctx c
  rw [run_bind, EvalOn.run_bind]
  obtain ⟨hc, hP⟩ := hm ctx c
  rcases h : (m.run ctx).run.run c with ⟨e | a, c'⟩ <;> rw [h] at hc hP <;> cases hc
  . exact ⟨rfl, fun _ hb => nomatch hb⟩
  . exact hf a (hP a rfl) ctx _

theorem liftExcept {P : α → Prop} {x : Except OlapError α} (h : ∀ a, x = .ok a → P a) :
    Quiet P (OlapCalc.liftExcept x) := by
  cases x with
  | ok a => exact pure (h a rfl)
  | error e => exact fun _ _ => ⟨rfl, fun _ hb => nomatch hb⟩

theorem forIn_prefix {γ : Type} {I : List γ → α → Prop} {f : γ → α → EvalAt (ForInStep α)}
    (hf : ∀ done t a, I done a → Quiet (fun s => ∃ b, s = .yield b ∧ I (done ++ [t]) b) (f t a)) :
    ∀ (ts done : List γ) (a : α), I done a → Quiet (I (done ++ ts)) (ForIn.forIn ts a f)
  | [], done, _, ha => by
    rw [List.append_nil]
    exact pure ha
  | t :: ts, done, a, ha => by
    rw [List.forIn_cons]
    refine bind (hf done t a ha) fun s hs => ?_
    obtain ⟨b, rfl, hb⟩ := hs
    have := forIn_prefix hf ts (done ++ [t]) b hb
    rwa [List.append_assoc, List.singleton_append] at this

theorem run_bind_eq {P : α → Prop} {m : EvalAt α} {f : α → EvalAt β} (hm : Quiet P m)
    {ctx : Context} {c : Counters} {r : Except OlapError β × Counters}
    (hok : ∀ a, P a → (m.run ctx).run.run c = (.ok a, c) → ((f a).run ctx).run.run c = r)
    (herr : ∀ e, (m.run ctx).run.run c = (.error e, c) → (.error e, c) = r) :
    ((m >>= f).run ctx).run.run c = r := by
  rw [EvalAt.run_bind, EvalOn.run_bind]
  obtain ⟨hc, hP⟩ := hm ctx c
  rcases h : (m.run ctx).run.run c with ⟨e | a, c'⟩ <;> rw [h] at hc hP <;> cases hc
  . exact herr e h
  . exact hok a (hP a rfl) h

end Quiet

namespace CutShort

variable {K : Nat} {R : α → α → Prop} {Over : α → Prop} {S : β → β → Prop} {Over' : β → Prop}

theorem pure {a b : α} (h : R a b) : CutShort K R Over (Pure.pure a) (Pure.pure b) :=
  fun _ c => .inl ⟨a, b, c, rfl, rfl, h⟩

theorem bind {mK m0 : EvalAt α} {fK f0 : α → EvalAt β} (hm : CutShort K R Over mK m0)
    (hf : ∀ a b, R a b → CutShort K S Over' (fK a) (f0 b))
    (hstays : ∀ b, Over b → Yields Over' (f0 b)) :
    CutShort K S Over' (mK >>= fK) (m0 >>= f0) := by
  intro ctx c
  rw [run_bind, run_bind, EvalOn.run_bind, EvalOn.run_bind]
  rcases hm ctx c with ⟨a, b, c', hK, h0, hab⟩ | ⟨e, c', hK, h0⟩ | ⟨hK, hover⟩
  . rw [hK, h0]
    exact hf a b hab ctx c'
  . rw [hK, h0]
    exact .inr (.inl ⟨e, c', rfl, rfl⟩)
  . -- the limited run stopped; the other goes on from a state that is over the limit
    refine .inr (.inr ⟨?_, fun b' hb' => ?_⟩)
    . rcases h : (mK.run ctx).run.run c with ⟨_ | _, _⟩ <;> rw [h] at hK <;> cases hK
      rfl
    . rcases h : (m0.run ctx).run.run c with ⟨_ | b, c'⟩ <;> rw [h] at hb'
      . cases hb'
      . exact hstays b (hover b (by rw [h])) ctx c' b' hb'

theorem bind_same {m : EvalAt α} {fK f0 : α → EvalAt β}
    (hf : ∀ a, CutShort K S Over' (fK a) (f0 a)) : CutShort K S Over' (m >>= fK) (m >>= f0) := by
  intro ctx c
  rw [run_bind, run_bind, EvalOn.run_bind, EvalOn.run_bind]
  rcases (m.run ctx).run.run c with ⟨e | a, c'⟩
  . exact .inr (.inl ⟨e, c', rfl, rfl⟩)
  . exact hf a ctx c'

theorem throw (e : OlapError) : CutShort K R Over (MonadExcept.throw e) (MonadExcept.throw e) :=
  fun _ c => .inr (.inl ⟨e, c, rfl, rfl⟩)

theorem bind_yields {P : α → Prop} {m : EvalAt α} {fK f0 : α → EvalAt β} (hm : Yields P m)
    (hf : ∀ a, P a → CutShort K S Over' (fK a) (f0 a)) : CutShort K S Over' (m >>= fK) (m >>= f0) := by
  intro ctx c
  rw [run_bind, run_bind, EvalOn.run_bind, EvalOn.run_bind]
  rcases h : (m.run ctx).run.run c with ⟨e | a, c'⟩
  . exact .inr (.inl ⟨e, c', rfl, rfl⟩)
  . exact hf a (hm ctx c a (by rw [h])) ctx c'

theorem ensureRoom {lK l0 : Limiter} (hK : 0 < K) (hcap : Limiter.Capped K lK l0) (n : Nat) :
    CutShort K (fun _ _ => True) (fun _ => K < l0.tuples.size + n) (liftExcept (lK.ensureRoom n))
      (liftExcept (l0.ensureRoom n)) := by
  intro ctx c
  rw [Limiter.ensureRoom_unlimited hcap.unlimited]
  by_cases hfit : l0.tuples.size + n ≤ K
  . rw [hcap.ensureRoom_fits hfit]
    exact .inl ⟨(), (), c, rfl, rfl, True.intro⟩
  . rw [hcap.ensureRoom_over hK (by omega)]
    exact .inr (.inr ⟨rfl, fun _ _ => by omega⟩)

theorem push {lK l0 : Limiter} (hK : 0 < K) (hcap : Limiter.Capped K lK l0) (t : Tuple) :
    CutShort K (Limiter.Capped K) (Limiter.Over K) (liftExcept (lK.push t))
      (liftExcept (l0.push t)) := by
  intro ctx c
  rw [Limiter.push_unlimited hcap.unlimited]
  by_cases hfit : l0.tuples.size + 1 ≤ K
  . rw [hcap.push_fits hfit]
    exact .inl ⟨_, _, c, rfl, rfl, hcap.push t hfit⟩
  . rw [hcap.push_over hK (by omega)]
    refine .inr (.inr ⟨rfl, fun b hb => ?_⟩)
    cases hb
    simp only [Limiter.Over, Array.size_push]
    omega

theorem forIn {γ : Type} {fK f0 : γ → α → EvalAt (ForInStep α)}
    (hf : ∀ t aK a0, R aK a0 → CutShort K (GoOn R) (fun s => Over s.value) (fK t aK) (f0 t a0))
    (hstays : ∀ t a, Over a → Yields (fun s => Over s.value) (f0 t a)) :
    ∀ (ts : List γ) (aK a0 : α), R aK a0 → CutShort K R Over (forIn ts aK fK) (forIn ts a0 f0)
  | [], _, _, h => pure h
  | t :: ts, aK, a0, h => by
    rw [List.forIn_cons, List.forIn_cons]
    refine bind (hf t aK a0 h) (fun sK s0 hs => ?_) fun s hs => ?_
    . obtain ⟨a, b, rfl, rfl, hab⟩ := hs
      exact forIn hf hstays ts a b hab
    . cases s with
      | done b => exact Yields.pure hs
      | yield b => exact Yields.forIn hstays ts b hs

end CutShort

/-- `mK` is `m0` cut short at `K` tuples: where `m0` gives a limiter of at most `K` tuples, `mK`
gives the same tuples with the same counts; where `m0` gives more, `mK` fails with the limit;
and whatever `mK` gives, `m0` gives too. -/
def LimitedBy (K : Nat) (mK m0 : EvalAt Limiter) : Prop :=
  ∀ ctx c,
    (∀ l c', (m0.run ctx).run.run c = (.ok l, c') →
      (l.tuples.size ≤ K → (mK.run ctx).run.run c = (.ok { l with limit := K }, c')) ∧
      (K < l.tuples.size → ((mK.run ctx).run.run c).1 = .error (.resourceLimit K))) ∧
    ∀ l c', (mK.run ctx).run.run c = (.ok l, c') →
      (m0.run ctx).run.run c = (.ok { l with limit := 0 }, c')

theorem CutShort.limitedBy {K : Nat} {mK m0 : EvalAt Limiter}
    (h : CutShort K (Limiter.Capped K) (Limiter.Over K) mK m0) : LimitedBy K mK m0 := by
  intro ctx c
  rcases h ctx c with ⟨a, b, c'', hK, h0, hab⟩ | ⟨e, c'', hK, h0⟩ | ⟨hK, hover⟩
  . -- both runs give limiters holding the same tuples, within the limit
    refine ⟨fun l c' h0' => ?_, fun l c' hK' => ?_⟩
    . rw [h0] at h0'
      cases h0'
      refine ⟨fun _ => by rw [hK, hab.eq_limited], fun hover => ?_⟩
      have := hab.fits
      omega
    . rw [hK] at hK'
      cases hK'
      rw [h0, hab.eq_unlimited]
  . refine ⟨fun l c' h0' => ?_, fun l c' hK' => ?_⟩
    . rw [h0] at h0'
      cases h0'
    . rw [hK] at hK'
      cases hK'
  . -- the limited run stopped at the limit, and every result of the other is over it
    refine ⟨fun l c' h0' => ⟨fun hfit => ?_, fun _ => hK⟩, fun l c' hK' => ?_⟩
    . have := hover l (by rw [h0'])
      simp only [Limiter.Over] at this
      omega
    . rw [hK'] at hK
      cases hK

end EvalAt

end OlapCalc
