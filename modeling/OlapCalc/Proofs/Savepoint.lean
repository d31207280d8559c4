import OlapCalc.Eval.Savepoint

/-!
Savepoints restore exactly.

The journal is read through `Evaluator.saved`: for every outstanding savepoint, the context that
replaying the journal back to the savepoint's length gives. A context call keeps `saved`, taking a
savepoint pushes the current context onto it and a restore cuts it back, as long as `WF` holds,
which every call preserves. Main statement: after any run of context calls from a fresh
evaluator, restoring a savepoint that is still outstanding brings back the context it was taken
in and the savepoints outstanding at that moment, and a savepoint that is not outstanding, or is
another evaluator's, cannot be restored.
-/

namespace OlapCalc

/-- The context calls of an evaluator. -/
inductive Call where
  | setContext (m : Member)
  | setContextTuple (t : Tuple)
  | setNonEmpty (b : Bool)
  | setSlicer (tuples : List Tuple)
  | widenSlicer (hierarchies : List Nat)
  | mark
  | restore (sp : Savepoint)

namespace Evaluator

def call (ev : Evaluator) : Call → Except RestoreFailure Evaluator
  | .setContext m => pure (ev.setContext m)
  | .setContextTuple t => pure (ev.setContextTuple t)
  | .setNonEmpty b => pure (ev.setNonEmpty b)
  | .setSlicer ts => pure (ev.setSlicer ts)
  | .widenSlicer hs => pure (ev.widenSlicer hs)
  | .mark => pure ev.mark.1
  | .restore sp => ev.restore sp

def run (ev : Evaluator) (calls : List Call) : Except RestoreFailure Evaluator :=
  calls.foldlM call ev

/-- The context the journal gives back when it is replayed down to length `len`. -/
def rewind (ev : Evaluator) (len : Nat) : Context :=
  (ev.journal.take (ev.journal.length - len)).foldl Undo.revert ev.ctx

/-- Each outstanding savepoint with the context restoring it gives. -/
def saved (ev : Evaluator) : List (Nat × Context) :=
  ev.marks.map fun m => (m.serial, ev.rewind m.journalLen)

/-- Slot `i` of a coordinate holds a member of hierarchy `i`. -/
def Placed (coordinate : List Member) : Prop :=
  ∀ i (m : Member), coordinate[i]? = some m → m.hierarchy = i

structure WF (ev : Evaluator) : Prop where
  placed : Placed ev.ctx.coordinate
  len_le : ∀ m ∈ ev.marks, m.journalLen ≤ ev.journal.length
  len_sorted : ev.marks.Pairwise fun a b => a.journalLen ≤ b.journalLen
  serial_sorted : ev.marks.Pairwise fun a b => a.serial < b.serial
  serial_lt : ∀ m ∈ ev.marks, m.serial < ev.nextSerial
  journal_nil : ev.marks = [] → ev.journal = []

/-- A change of the context alone: the savepoints, what they restore and the serial counter
stay. -/
structure Keeps (ev ev' : Evaluator) : Prop where
  wf : ev'.WF
  id : ev'.id = ev.id
  marks : ev'.marks = ev.marks
  nextSerial : ev'.nextSerial = ev.nextSerial
  saved : ev'.saved = ev.saved

theorem outstanding_eq_saved (ev : Evaluator) : ev.outstanding = ev.saved.map Prod.fst := by
  simp [outstanding, saved]

theorem Keeps.refl {ev : Evaluator} (hwf : ev.WF) : Keeps ev ev :=
  ⟨hwf, rfl, rfl, rfl, rfl⟩

theorem Keeps.trans {ev₁ ev₂ ev₃ : Evaluator} (h₁ : Keeps ev₁ ev₂) (h₂ : Keeps ev₂ ev₃) :
    Keeps ev₁ ev₃ :=
  ⟨h₂.wf, h₂.id.trans h₁.id, h₂.marks.trans h₁.marks, h₂.nextSerial.trans h₁.nextSerial,
    h₂.saved.trans h₁.saved⟩

theorem placed_set {coordinate : List Member} (h : Placed coordinate) (m : Member) :
    Placed (coordinate.set m.hierarchy m) := by
  intro i x hx
  rw [List.getElem?_set] at hx
  split at hx
  . next heq =>
    split at hx
    . cases hx
      exact heq
    . cases hx
  . exact h i x hx

theorem placed_revert {ctx : Context} (h : Placed ctx.coordinate) (u : Undo) :
    Placed (Undo.revert ctx u).coordinate := by
  cases u with
  | member m => exact placed_set h m
  | nonEmpty b => exact h
  | slicer ts => exact h

theorem placed_foldl_revert {ctx : Context} (h : Placed ctx.coordinate) (us : List Undo) :
    Placed (us.foldl Undo.revert ctx).coordinate := by
  induction us generalizing ctx with
  | nil => exact h
  | cons u us ih => exact ih (placed_revert h u)

theorem placed_setMember {ctx : Context} (h : Placed ctx.coordinate) (m : Member) :
    Placed (ctx.setMember m).coordinate := by
  unfold Context.setMember
  split
  . exact h
  . exact placed_set h m

theorem foldl_take_cons (j : List Undo) (u : Undo) (ctx : Context) (len : Nat)
    (h : len ≤ j.length) :
    ((u :: j).take ((u :: j).length - len)).foldl Undo.revert ctx =
      (j.take (j.length - len)).foldl Undo.revert (Undo.revert ctx u) := by
  rw [List.length_cons, show j.length + 1 - len = j.length - len + 1 by omega,
    List.take_succ_cons, List.foldl_cons]

theorem keeps_record {ev : Evaluator} {c : Context} {u : Undo} (hwf : ev.WF)
    (hc : Placed c.coordinate) (hu : Undo.revert c u = ev.ctx) :
    Keeps ev ({ ev with ctx := c }.record u) := by
  unfold record
  split
  . next hempty =>
    have hnil : ev.marks = [] := List.isEmpty_iff.mp hempty
    refine ⟨⟨hc, hwf.len_le, hwf.len_sorted, hwf.serial_sorted, hwf.serial_lt, hwf.journal_nil⟩,
      rfl, rfl, rfl, ?_⟩
    simp [saved, hnil]
  . next hne =>
    have hne' : ev.marks ≠ [] := fun h => hne (List.isEmpty_iff.mpr h)
    refine ⟨⟨hc, ?_, hwf.len_sorted, hwf.serial_sorted, hwf.serial_lt, ?_⟩, rfl, rfl, rfl, ?_⟩
    . intro m hm
      have := hwf.len_le m hm
      simp only [List.length_cons]
      omega
    . intro h
      exact absurd h hne'
    . simp only [saved, rewind]
      apply List.map_congr_left
      intro m hm
      rw [foldl_take_cons _ _ _ _ (hwf.len_le m hm), hu]

@[simp] theorem record_ctx (ev : Evaluator) (u : Undo) : (ev.record u).ctx = ev.ctx := by
  unfold record
  split <;> rfl

theorem set_self_of_getElem? {l : List Member} {i : Nat} {a : Member} (h : l[i]? = some a) :
    l.set i a = l := by
  obtain ⟨hi, rfl⟩ := List.getElem?_eq_some_iff.mp h
  exact List.set_getElem_self hi

theorem setMember_of_ne {ctx : Context} {m current : Member}
    (hsome : ctx.coordinate[m.hierarchy]? = some current) (hne : (current == m) = false) :
    ctx.setMember m = { ctx with coordinate := ctx.coordinate.set m.hierarchy m } := by
  unfold Context.setMember
  rw [if_neg]
  rw [hsome]
  simpa using hne

theorem setContext_ctx (ev : Evaluator) (m : Member) :
    (ev.setContext m).ctx = ev.ctx.setMember m := by
  unfold setContext
  split
  . next hnone =>
    have hlen : ev.ctx.coordinate.length ≤ m.hierarchy := List.getElem?_eq_none_iff.mp hnone
    unfold Context.setMember
    rw [hnone, List.set_eq_of_length_le hlen]
    split <;> rfl
  . next current hsome =>
    split
    . next heq =>
      unfold Context.setMember
      rw [if_pos]
      rw [hsome]
      simpa using heq
    . rw [record_ctx]

theorem keeps_setContext {ev : Evaluator} (hwf : ev.WF) (m : Member) :
    Keeps ev (ev.setContext m) := by
  unfold setContext
  split
  . exact Keeps.refl hwf
  . next current hsome =>
    split
    . exact Keeps.refl hwf
    . next hne =>
      apply keeps_record hwf (placed_setMember hwf.placed m)
      have hh : current.hierarchy = m.hierarchy := hwf.placed _ _ hsome
      rw [setMember_of_ne hsome (by simpa using hne)]
      simp only [Undo.revert, hh, List.set_set, set_self_of_getElem? hsome]

theorem keeps_setContextTuple {ev : Evaluator} (hwf : ev.WF) (t : Tuple) :
    Keeps ev (ev.setContextTuple t) := by
  induction t generalizing ev with
  | nil => exact Keeps.refl hwf
  | cons m t ih =>
    have h₁ := keeps_setContext hwf m
    exact h₁.trans (ih h₁.wf)

theorem keeps_setNonEmpty {ev : Evaluator} (hwf : ev.WF) (b : Bool) :
    Keeps ev (ev.setNonEmpty b) := by
  unfold setNonEmpty
  split
  . exact Keeps.refl hwf
  . exact keeps_record hwf hwf.placed rfl

theorem keeps_setSlicer {ev : Evaluator} (hwf : ev.WF) (tuples : List Tuple) :
    Keeps ev (ev.setSlicer tuples) :=
  keeps_record hwf hwf.placed rfl

theorem keeps_widenSlicer {ev : Evaluator} (hwf : ev.WF) (hierarchies : List Nat) :
    Keeps ev (ev.widenSlicer hierarchies) := by
  unfold widenSlicer
  split
  . exact keeps_setSlicer hwf _
  . exact Keeps.refl hwf

@[simp] theorem mark_snd (ev : Evaluator) : ev.mark.2 = ⟨ev.id, ev.nextSerial⟩ := rfl

@[simp] theorem mark_id (ev : Evaluator) : ev.mark.1.id = ev.id := rfl

@[simp] theorem mark_nextSerial (ev : Evaluator) : ev.mark.1.nextSerial = ev.nextSerial + 1 := rfl

theorem saved_mark (ev : Evaluator) : ev.mark.1.saved = ev.saved ++ [(ev.nextSerial, ev.ctx)] := by
  simp [mark, saved, rewind]

theorem mark_wf {ev : Evaluator} (hwf : ev.WF) : ev.mark.1.WF := by
  refine ⟨hwf.placed, ?_, ?_, ?_, ?_, ?_⟩
  . intro m hm
    simp only [mark, List.mem_append, List.mem_singleton] at hm
    rcases hm with hm | rfl
    . exact hwf.len_le m hm
    . exact Nat.le_refl _
  . simp only [mark, List.pairwise_append, List.pairwise_singleton, List.mem_singleton,
      forall_eq, true_and]
    exact ⟨hwf.len_sorted, fun a ha => hwf.len_le a ha⟩
  . simp only [mark, List.pairwise_append, List.pairwise_singleton, List.mem_singleton,
      forall_eq, true_and]
    exact ⟨hwf.serial_sorted, fun a ha => hwf.serial_lt a ha⟩
  . intro m hm
    simp only [mark, List.mem_append, List.mem_singleton] at hm
    rcases hm with hm | rfl
    . have := hwf.serial_lt m hm
      simp only [mark]
      omega
    . simp [mark]
  . simp [mark]

theorem lastMark?_spec {s pos : Nat} {marks : List Mark} {m : Mark}
    (h : lastMark? s marks = some (pos, m)) : marks[pos]? = some m ∧ m.serial = s := by
  induction marks generalizing pos with
  | nil => cases h
  | cons a rest ih =>
    simp only [lastMark?] at h
    split at h
    . next i found hrest =>
      cases h
      exact ih hrest
    . split at h
      . next heq =>
        cases h
        exact ⟨rfl, by simpa using heq⟩
      . cases h

theorem lastMark?_eq_none_iff {s : Nat} {marks : List Mark} :
    lastMark? s marks = none ↔ s ∉ marks.map (·.serial) := by
  induction marks with
  | nil => simp [lastMark?]
  | cons a rest ih =>
    simp only [lastMark?, List.map_cons, List.mem_cons, not_or]
    split
    . next i found hrest =>
      simp only [reduceCtorEq, false_iff, not_and, Decidable.not_not]
      intro _
      exact Decidable.byContradiction fun hn => by simp_all
    . next hrest =>
      have hs : s ∉ rest.map (·.serial) := ih.mp hrest
      by_cases heq : a.serial = s
      . simp [heq]
      . have hne : s ≠ a.serial := fun h => heq h.symm
        simp [heq, hne, hs]

theorem restore_foreign {ev : Evaluator} {sp : Savepoint} (h : sp.evaluator ≠ ev.id) :
    ev.restore sp = .error .foreign := by
  simp [restore, h]
  rfl

theorem restore_outOfOrder {ev : Evaluator} {sp : Savepoint} (hid : sp.evaluator = ev.id)
    (hs : sp.serial ∉ ev.outstanding) : ev.restore sp = .error (.outOfOrder sp.serial) := by
  have hnone : lastMark? sp.serial ev.marks = none := lastMark?_eq_none_iff.mpr hs
  simp [restore, hid, hnone]
  rfl

theorem restore_error {ev : Evaluator} {sp : Savepoint}
    (h : sp.evaluator ≠ ev.id ∨ sp.serial ∉ ev.outstanding) : ∃ f, ev.restore sp = .error f := by
  by_cases hid : sp.evaluator = ev.id
  . exact ⟨_, restore_outOfOrder hid (h.resolve_left fun hne => hne hid)⟩
  . exact ⟨_, restore_foreign hid⟩

theorem restore_eq_ok {ev ev' : Evaluator} {sp : Savepoint} (h : ev.restore sp = .ok ev') :
    sp.evaluator = ev.id ∧
      ∃ pos m, lastMark? sp.serial ev.marks = some (pos, m) ∧ ev' = ev.rollback pos m := by
  unfold restore at h
  by_cases hid : sp.evaluator = ev.id
  . refine ⟨hid, ?_⟩
    cases hm : lastMark? sp.serial ev.marks with
    | none => simp [hid, hm] at h
    | some pm =>
      obtain ⟨pos, m⟩ := pm
      simp [hid, hm] at h
      exact ⟨pos, m, rfl, (Except.ok.inj h).symm⟩
  . simp [hid] at h
    cases h

@[simp] theorem rollback_id (ev : Evaluator) (pos : Nat) (m : Mark) :
    (ev.rollback pos m).id = ev.id := rfl

@[simp] theorem rollback_nextSerial (ev : Evaluator) (pos : Nat) (m : Mark) :
    (ev.rollback pos m).nextSerial = ev.nextSerial := rfl

@[simp] theorem rollback_marks (ev : Evaluator) (pos : Nat) (m : Mark) :
    (ev.rollback pos m).marks = ev.marks.take pos := rfl

theorem rollback_ctx (ev : Evaluator) (pos : Nat) (m : Mark) :
    (ev.rollback pos m).ctx = ev.rewind m.journalLen := rfl

theorem journalLen_le_of_before {ev : Evaluator} {pos : Nat} {m a : Mark} (hwf : ev.WF)
    (hm : ev.marks[pos]? = some m) (ha : a ∈ ev.marks.take pos) :
    a.journalLen ≤ m.journalLen := by
  have hsplit := hwf.len_sorted
  rw [← List.take_append_drop pos ev.marks, List.pairwise_append] at hsplit
  apply hsplit.2.2 a ha m
  apply List.mem_of_getElem? (i := 0)
  rw [List.getElem?_drop, Nat.add_zero, hm]

theorem rewind_rollback {ev : Evaluator} {pos : Nat} {m a : Mark}
    (hm : m.journalLen ≤ ev.journal.length) (ha : a ∈ ev.marks.take pos)
    (hle : a.journalLen ≤ m.journalLen) :
    (ev.rollback pos m).rewind a.journalLen = ev.rewind a.journalLen := by
  have hne : (ev.marks.take pos).isEmpty = false := List.isEmpty_eq_false_iff.mpr (List.ne_nil_of_mem ha)
  simp only [rewind, rollback, hne, Bool.false_eq_true, if_false]
  rw [← List.foldl_append, ← List.take_add, List.length_drop]
  congr 2
  omega

theorem saved_rollback {ev : Evaluator} {pos : Nat} {m : Mark} (hwf : ev.WF)
    (hm : ev.marks[pos]? = some m) : (ev.rollback pos m).saved = ev.saved.take pos := by
  have hmem : m ∈ ev.marks := List.mem_of_getElem? hm
  simp only [saved, rollback_marks]
  rw [← List.map_take]
  apply List.map_congr_left
  intro a ha
  rw [rewind_rollback (hwf.len_le m hmem) ha (journalLen_le_of_before hwf hm ha)]

theorem rollback_wf {ev : Evaluator} {pos : Nat} {m : Mark} (hwf : ev.WF)
    (hm : ev.marks[pos]? = some m) : (ev.rollback pos m).WF := by
  have hmem : m ∈ ev.marks := List.mem_of_getElem? hm
  have hsub : (ev.marks.take pos).Sublist ev.marks := List.take_sublist pos ev.marks
  refine ⟨placed_foldl_revert hwf.placed _, ?_, hwf.len_sorted.sublist hsub,
    hwf.serial_sorted.sublist hsub, fun a ha => hwf.serial_lt a (hsub.subset ha), ?_⟩
  . intro a ha
    have hne : (ev.marks.take pos).isEmpty = false :=
      List.isEmpty_eq_false_iff.mpr (List.ne_nil_of_mem ha)
    have hle := journalLen_le_of_before hwf hm ha
    have hlen := hwf.len_le m hmem
    simp only [rollback, hne, Bool.false_eq_true, if_false, List.length_drop]
    omega
  . intro hnil
    simp only [rollback_marks] at hnil
    simp [rollback, hnil]

theorem restore_spec {ev ev' : Evaluator} {sp : Savepoint} (hwf : ev.WF)
    (h : ev.restore sp = .ok ev') :
    ev'.WF ∧ ev'.id = ev.id ∧ ev'.nextSerial = ev.nextSerial ∧
      ∃ pos, ∃ hpos : pos < ev.saved.length, ev.saved[pos].1 = sp.serial ∧
        ev'.ctx = ev.saved[pos].2 ∧ ev'.saved = ev.saved.take pos := by
  obtain ⟨_, pos, m, hlast, rfl⟩ := restore_eq_ok h
  obtain ⟨hm, hserial⟩ := lastMark?_spec hlast
  obtain ⟨hlt, hget⟩ := List.getElem?_eq_some_iff.mp hm
  have hpos : pos < ev.saved.length := by simpa [saved] using hlt
  refine ⟨rollback_wf hwf hm, rfl, rfl, pos, hpos, ?_, ?_, saved_rollback hwf hm⟩
  . simp [saved, hget, hserial]
  . simp [saved, hget, rollback_ctx]

theorem saved_index_eq {ev : Evaluator} (hwf : ev.WF) {i j : Nat} (hi : i < ev.saved.length)
    (hj : j < ev.saved.length) (h : ev.saved[i].1 = ev.saved[j].1) : i = j := by
  have hp := List.pairwise_iff_getElem.mp hwf.serial_sorted
  have hi' : i < ev.marks.length := by simpa [saved] using hi
  have hj' : j < ev.marks.length := by simpa [saved] using hj
  simp only [saved, List.getElem_map] at h
  rcases Nat.lt_trichotomy i j with hij | hij | hij
  . have := hp i j hi' hj' hij
    omega
  . exact hij
  . have := hp j i hj' hi' hij
    omega

theorem run_cons {ev ev' : Evaluator} {c : Call} {cs : List Call} :
    ev.run (c :: cs) = .ok ev' ↔ ∃ ev₁, ev.call c = .ok ev₁ ∧ ev₁.run cs = .ok ev' := by
  simp only [run, List.foldlM_cons]
  cases h : ev.call c with
  | error e => simp [bind, Except.bind]
  | ok ev₁ => simp [bind, Except.bind]

theorem run_nil {ev ev' : Evaluator} (h : ev.run [] = .ok ev') : ev' = ev := by
  simp only [run, List.foldlM_nil] at h
  exact (Except.ok.inj h).symm

theorem call_cases {ev ev' : Evaluator} {c : Call} (hwf : ev.WF) (h : ev.call c = .ok ev') :
    Keeps ev ev' ∨ ev' = ev.mark.1 ∨ ∃ sp, ev.restore sp = .ok ev' := by
  cases c with
  | setContext m =>
    obtain rfl := Except.ok.inj h
    exact .inl (keeps_setContext hwf m)
  | setContextTuple t =>
    obtain rfl := Except.ok.inj h
    exact .inl (keeps_setContextTuple hwf t)
  | setNonEmpty b =>
    obtain rfl := Except.ok.inj h
    exact .inl (keeps_setNonEmpty hwf b)
  | setSlicer ts =>
    obtain rfl := Except.ok.inj h
    exact .inl (keeps_setSlicer hwf ts)
  | widenSlicer hs =>
    obtain rfl := Except.ok.inj h
    exact .inl (keeps_widenSlicer hwf hs)
  | mark =>
    obtain rfl := Except.ok.inj h
    exact .inr (.inl rfl)
  | restore sp => exact .inr (.inr ⟨sp, h⟩)

theorem run_wf {ev ev' : Evaluator} {calls : List Call} (hwf : ev.WF)
    (h : ev.run calls = .ok ev') : ev'.WF ∧ ev'.id = ev.id ∧ ev.nextSerial ≤ ev'.nextSerial := by
  induction calls generalizing ev with
  | nil =>
    obtain rfl := run_nil h
    exact ⟨hwf, rfl, Nat.le_refl _⟩
  | cons c cs ih =>
    obtain ⟨ev₁, hc, hrest⟩ := run_cons.mp h
    have step : ev₁.WF ∧ ev₁.id = ev.id ∧ ev.nextSerial ≤ ev₁.nextSerial := by
      rcases call_cases hwf hc with hk | rfl | ⟨sp, hr⟩
      . exact ⟨hk.wf, hk.id, Nat.le_of_eq hk.nextSerial.symm⟩
      . exact ⟨mark_wf hwf, rfl, by simp⟩
      . obtain ⟨hw, hid, hn, -⟩ := restore_spec hwf hr
        exact ⟨hw, hid, Nat.le_of_eq hn.symm⟩
    obtain ⟨hw, hid, hn⟩ := ih step.1 hrest
    exact ⟨hw, hid.trans step.2.1, Nat.le_trans step.2.2 hn⟩

theorem run_absent {ev ev' : Evaluator} {calls : List Call} {s : Nat} (hwf : ev.WF)
    (hlt : s < ev.nextSerial) (hs : s ∉ ev.outstanding) (h : ev.run calls = .ok ev') :
    s ∉ ev'.outstanding := by
  induction calls generalizing ev with
  | nil =>
    obtain rfl := run_nil h
    exact hs
  | cons c cs ih =>
    obtain ⟨ev₁, hc, hrest⟩ := run_cons.mp h
    rcases call_cases hwf hc with hk | rfl | ⟨sp, hr⟩
    . apply ih hk.wf (by rw [hk.nextSerial]; exact hlt) _ hrest
      simpa [outstanding, hk.marks] using hs
    . apply ih (mark_wf hwf) (by simp; omega) _ hrest
      have hs' : s ∉ ev.marks.map (·.serial) := hs
      simp only [outstanding, mark, List.map_append, List.map_cons, List.map_nil, List.mem_append,
        List.mem_singleton, not_or]
      exact ⟨hs', by omega⟩
    . obtain ⟨hw, -, hn, pos, -, -, -, hsaved⟩ := restore_spec hwf hr
      apply ih hw (by rw [hn]; exact hlt) _ hrest
      rw [outstanding_eq_saved, hsaved, List.map_take]
      rw [outstanding_eq_saved] at hs
      exact fun hmem => hs (List.mem_of_mem_take hmem)

theorem run_keeps_prefix {ev ev' : Evaluator} {calls : List Call} {P : List (Nat × Context)}
    {s : Nat} {c : Context} (hwf : ev.WF) (hP : P ++ [(s, c)] <+: ev.saved)
    (h : ev.run calls = .ok ev') (hs : s ∈ ev'.outstanding) : P ++ [(s, c)] <+: ev'.saved := by
  induction calls generalizing ev with
  | nil =>
    obtain rfl := run_nil h
    exact hP
  | cons call cs ih =>
    obtain ⟨ev₁, hc, hrest⟩ := run_cons.mp h
    rcases call_cases hwf hc with hk | rfl | ⟨sp, hr⟩
    . exact ih hk.wf (hk.saved ▸ hP) hrest
    . apply ih (mark_wf hwf) _ hrest
      rw [saved_mark]
      exact hP.trans (List.prefix_append _ _)
    . obtain ⟨hw, -, hn, pos, -, -, -, hsaved⟩ := restore_spec hwf hr
      apply ih hw _ hrest
      rw [hsaved, List.prefix_take_iff]
      refine ⟨hP, ?_⟩
      -- a restore at or below `s` would discard it for good
      apply Nat.le_of_not_lt
      intro hlt
      have hlen : P.length < ev.saved.length := by
        have := hP.length_le
        simp at this
        omega
      have hat : ev.saved[P.length].1 = s := by
        have := hP.getElem (i := P.length) (by simp)
        simp at this
        rw [← this]
      have habsent : s ∉ ev₁.outstanding := by
        rw [outstanding_eq_saved, hsaved]
        intro hmem
        obtain ⟨i, hi, hget⟩ := List.mem_iff_getElem.mp hmem
        simp only [List.length_map, List.length_take] at hi
        simp only [List.getElem_map, List.getElem_take] at hget
        have := saved_index_eq hwf (by omega) hlen (hget.trans hat.symm)
        simp at hlt
        omega
      have hsn : s < ev₁.nextSerial := by
        have hmem : s ∈ ev.outstanding := by
          rw [outstanding_eq_saved, ← hat]
          exact List.mem_map_of_mem (List.getElem_mem hlen)
        simp only [outstanding, List.mem_map] at hmem
        obtain ⟨m, hm, rfl⟩ := hmem
        rw [hn]
        exact hwf.serial_lt m hm
      exact run_absent hw hsn habsent hrest hs

theorem restore_ok {ev : Evaluator} {sp : Savepoint} (hid : sp.evaluator = ev.id)
    (hs : sp.serial ∈ ev.outstanding) : ∃ ev', ev.restore sp = .ok ev' := by
  cases hm : lastMark? sp.serial ev.marks with
  | none => exact absurd hs (lastMark?_eq_none_iff.mp hm)
  | some pm =>
    refine ⟨ev.rollback pm.1 pm.2, ?_⟩
    simp [restore, hid, hm]
    rfl

theorem new_wf {cube : Cube}
    (hcube : ∀ i (h : Hierarchy), cube.hierarchies[i]? = some h → h.defaultMember.hierarchy = i)
    (id : Nat) : (Evaluator.new cube id).WF := by
  refine ⟨?_, by simp [new], by simp [new], by simp [new], by simp [new], by simp [new]⟩
  intro i m hm
  simp only [new, Context.initial, List.getElem?_map] at hm
  cases hh : cube.hierarchies[i]? with
  | none => simp [hh] at hm
  | some h =>
    simp only [hh, Option.map_some, Option.some.injEq] at hm
    rw [← hm]
    exact hcube i h hh

/-- Restoring a savepoint after any run of context calls that left it outstanding gives back
the context it was taken in and the savepoints outstanding then, after which neither it nor any
savepoint taken after it can be restored; a savepoint that is not outstanding, or another
evaluator's, cannot be restored at any point. -/
theorem restore_after_run {cube : Cube} {id : Nat} {pre calls : List Call} {ev ev' : Evaluator}
    (hcube : ∀ i (h : Hierarchy), cube.hierarchies[i]? = some h → h.defaultMember.hierarchy = i)
    (hpre : (Evaluator.new cube id).run pre = .ok ev) (hrun : ev.mark.1.run calls = .ok ev')
    (hout : ev.mark.2.serial ∈ ev'.outstanding) :
    ∃ ev'', ev'.restore ev.mark.2 = .ok ev'' ∧ ev''.ctx = ev.ctx ∧
      ev''.outstanding = ev.outstanding ∧
      (∀ sp, sp.evaluator ≠ ev'.id ∨ sp.serial ∉ ev'.outstanding →
        ∃ f, ev'.restore sp = .error f) ∧
      ∀ serial, ev.mark.2.serial ≤ serial →
        ev''.restore ⟨ev.id, serial⟩ = .error (.outOfOrder serial) := by
  have hwf : ev.WF := (run_wf (new_wf hcube id) hpre).1
  obtain ⟨hwf', hid', -⟩ := run_wf (mark_wf hwf) hrun
  have hP : ev.saved ++ [(ev.nextSerial, ev.ctx)] <+: ev'.saved :=
    run_keeps_prefix (mark_wf hwf) ⟨[], by rw [List.append_nil, saved_mark]⟩ hrun hout
  have hid : ev.mark.2.evaluator = ev'.id := by simp [hid']
  obtain ⟨ev'', hres⟩ := restore_ok hid hout
  obtain ⟨hwf'', hid'', -, pos, hpos, hserial, hctx, hsaved⟩ := restore_spec hwf' hres
  have hlen : ev.saved.length < ev'.saved.length := by
    have := hP.length_le
    simp at this
    omega
  have hat : ev'.saved[ev.saved.length] = (ev.nextSerial, ev.ctx) := by
    have := hP.getElem (i := ev.saved.length) (by simp)
    simp at this
    rw [← this]
  -- the restored savepoint is the one pushed by the mark
  have hpos_eq : pos = ev.saved.length :=
    saved_index_eq hwf' hpos hlen (by rw [hserial, hat]; rfl)
  subst hpos_eq
  have htake : ev'.saved.take ev.saved.length = ev.saved := by
    have := List.prefix_iff_eq_take.mp ((List.prefix_append _ _).trans hP)
    exact this.symm
  have hout'' : ev''.outstanding = ev.outstanding := by
    rw [outstanding_eq_saved, hsaved, htake, outstanding_eq_saved]
  refine ⟨ev'', hres, by rw [hctx, hat], hout'', fun sp hsp => restore_error hsp, ?_⟩
  intro serial hserial'
  apply restore_outOfOrder (by simp [hid'', hid'])
  rw [hout'']
  intro hmem
  simp only [outstanding, List.mem_map] at hmem
  obtain ⟨m, hm, rfl⟩ := hmem
  have := hwf.serial_lt m hm
  simp at hserial'
  omega

theorem restore_after_run_measures :
    let sales := Member.measure 0 "Sales" .sum 0
    let units := Member.measure 0 "Units" .sum 1
    let cube : Cube := ⟨[.mk 0 "Measures" ["MeasuresLevel"] sales true false], [sales, units],
      [[[sales, units]]], [], [], true⟩
    (∀ i (h : Hierarchy), cube.hierarchies[i]? = some h → h.defaultMember.hierarchy = i) ∧
    ∃ ev ev', (Evaluator.new cube 0).run [.setNonEmpty true] = .ok ev ∧
      ev.mark.1.run [.setContext units, .mark, .setSlicer [[units]], .setNonEmpty false] =
        .ok ev' ∧
      ev.mark.2.serial ∈ ev'.outstanding ∧
      ∃ ev'', ev'.restore ev.mark.2 = .ok ev'' ∧ ev''.ctx = ev.ctx ∧
        ev''.outstanding = ev.outstanding ∧
        (∀ sp, sp.evaluator ≠ ev'.id ∨ sp.serial ∉ ev'.outstanding →
          ∃ f, ev'.restore sp = .error f) ∧
        ∀ serial, ev.mark.2.serial ≤ serial →
          ev''.restore ⟨ev.id, serial⟩ = .error (.outOfOrder serial) := by
  intro sales units cube
  have hcube : ∀ i (h : Hierarchy), cube.hierarchies[i]? = some h →
      h.defaultMember.hierarchy = i := by
    intro i h hh
    cases i with
    | zero =>
      simp only [cube, List.getElem?_cons_zero, Option.some.injEq] at hh
      subst hh
      rfl
    | succ i => simp [cube] at hh
  exact ⟨hcube, _, _, rfl, rfl, by decide,
    @restore_after_run cube 0 [.setNonEmpty true]
      [.setContext units, .mark, .setSlicer [[units]], .setNonEmpty false] _ _ hcube rfl rfl
      (by decide)⟩

end Evaluator

end OlapCalc
