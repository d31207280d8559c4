import OlapCalc.Proofs.UniqueNames
import OlapCalc.Proofs.ShapeInference

/-!
What the cube builder keeps.

The builder keeps, for each hierarchy, the members created so far as lists per depth and a
children map keyed by unique name. The invariant `HierarchyDef.Wf` says what these hold: every
member on a path of separator-free names below the `All` member, no two members with one unique
name, each member's children in creation order with ordinals from zero. Every builder call keeps
it, together with distinct hierarchy and measure names (`CubeBuilder.Wf`), for any sequence of
calls whose names are free of the separator.
-/

namespace OlapCalc

theorem flatten_modify_append_perm {α : Type} (c : α) :
    ∀ {L : List (List α)} {j : Nat}, j < L.length →
      (L.modify j (· ++ [c])).flatten.Perm (L.flatten ++ [c])
  | [], _, hj => absurd hj (Nat.not_lt_zero _)
  | l :: L, 0, _ => by
    simp only [List.modify_zero_cons, List.flatten_cons, List.append_assoc]
    exact List.Perm.append_left l List.perm_append_comm
  | l :: L, j + 1, hj => by
    simp only [List.modify_succ_cons, List.flatten_cons, List.append_assoc]
    exact List.Perm.append_left l (flatten_modify_append_perm c (Nat.lt_of_succ_lt_succ hj))

theorem foldlM_invariant {ε α β : Type} {f : α → β → Except ε α} (I : α → Prop) {l : List β}
    (hstep : ∀ a, ∀ x ∈ l, ∀ a', I a → f a x = .ok a' → I a') :
    ∀ {init r : α}, I init → l.foldlM f init = .ok r → I r := by
  induction l with
  | nil =>
    intro init r hinit h
    cases h
    exact hinit
  | cons x l ih =>
    intro init r hinit h
    rw [List.foldlM_cons] at h
    obtain ⟨a, ha, hrest⟩ := bind_eq_ok.mp h
    exact ih (fun a y hy => hstep a y (List.mem_cons_of_mem x hy))
      (hstep init x List.mem_cons_self a hinit ha) hrest

namespace HierarchyDef

/-- The members created so far, depth by depth. -/
def members (d : HierarchyDef) : List Member := d.byDepth.flatten

/-- The members of depth `j`, in creation order. -/
def atDepth (d : HierarchyDef) (j : Nat) : List Member := d.byDepth.getD j []

theorem atDepth_eq_getElem {d : HierarchyDef} {j : Nat} (hj : j < d.byDepth.length) :
    d.atDepth j = d.byDepth[j] := by
  simp [atDepth, List.getD_eq_getElem?_getD, List.getElem?_eq_getElem hj]

theorem mem_members {d : HierarchyDef} {x : Member} : x ∈ d.members ↔ ∃ j, x ∈ d.atDepth j := by
  simp only [members, atDepth, List.mem_flatten, List.getD_eq_getElem?_getD]
  constructor
  . rintro ⟨l, hl, hx⟩
    obtain ⟨j, hj, rfl⟩ := List.getElem_of_mem hl
    exact ⟨j, by simpa [List.getElem?_eq_getElem hj] using hx⟩
  . rintro ⟨j, hx⟩
    cases hj : d.byDepth[j]? with
    | none => simp [hj] at hx
    | some l => exact ⟨l, List.mem_of_getElem? hj, by simpa [hj] using hx⟩

/-- What a hierarchy under construction holds, for hierarchy id `k`: its `All` member on top,
every member on a path of separator-free names below it, no two members with one unique name,
at each depth the members of that depth, the parent of every member among the members, under
each member the list of its children, with ordinals from zero, and only members' unique names
as keys of the children map. -/
structure Wf (k : Nat) (d : HierarchyDef) : Prop where
  safe : SegmentSafe d.name
  all_eq : d.all = Member.all k d.name
  top : d.byDepth[0]? = some [d.all]
  length_eq : d.byDepth.length = d.levels.length
  onPath : ∀ x ∈ d.members, ∃ path, x.OnPath k d.name path ∧ ∀ n ∈ path, SegmentSafe n
  distinct : (d.members.map Member.uniqueName).Nodup
  depth_eq : ∀ j, ∀ x ∈ d.atDepth j, x.depth = j
  parent_mem : ∀ x ∈ d.members, ∀ p, x.parent = some p → p ∈ d.members
  children_eq : ∀ x ∈ d.members,
    d.childrenOf x = (d.atDepth (x.depth + 1)).filter (·.parent.any (· == x))
  ordinals : ∀ x ∈ d.members,
    (d.childrenOf x).map Member.ordinal = List.range (d.childrenOf x).length
  keys : ∀ u ∈ d.children.map (·.1), ∃ x ∈ d.members, x.uniqueName = u
  keys_nodup : (d.children.map (·.1)).Nodup

namespace Wf

variable {k : Nat} {d : HierarchyDef}

theorem mem_atDepth (hd : d.Wf k) {x : Member} (hx : x ∈ d.members) : x ∈ d.atDepth x.depth := by
  obtain ⟨j, hj⟩ := mem_members.mp hx
  rwa [hd.depth_eq j x hj]

theorem eq_of_uniqueName (hd : d.Wf k) {x y : Member} (hx : x ∈ d.members) (hy : y ∈ d.members)
    (h : x.uniqueName = y.uniqueName) : x = y :=
  List.inj_on_of_nodup_map hd.distinct hx hy h

theorem safe_of_onPath (hd : d.Wf k) {x : Member} {p : List String} (hx : x ∈ d.members)
    (hp : x.OnPath k d.name p) : ∀ n ∈ p, SegmentSafe n := by
  obtain ⟨p', hp', hps⟩ := hd.onPath x hx
  rwa [hp.path_eq hp']

theorem all_mem (hd : d.Wf k) : d.all ∈ d.members :=
  mem_members.mpr ⟨0, by simp [atDepth, List.getD_eq_getElem?_getD, hd.top]⟩

end Wf

theorem create_wf {k : Nat} {name : String} (levels : List String) (hname : SegmentSafe name) :
    (create k name levels).Wf k := by
  have hmembers : (create k name levels).members = [Member.all k name] := by
    simp [create, members]
  have hat : ∀ j, (create k name levels).atDepth j = if j = 0 then [Member.all k name] else [] := by
    intro j
    cases j with
    | zero => rfl
    | succ j =>
      simp only [create, atDepth, List.getD_eq_getElem?_getD, List.map_const',
        List.getElem?_cons_succ, List.getElem?_replicate]
      split <;> rfl
  have hnil : ∀ x, (create k name levels).childrenOf x = [] := fun _ => rfl
  refine ⟨hname, rfl, rfl, by simp [create], ?_, ?_, ?_, ?_, ?_, ?_, ?_, ?_⟩
  . intro x hx
    rw [hmembers, List.mem_singleton] at hx
    exact ⟨[], hx ▸ .all, by simp⟩
  . simp [hmembers]
  . intro j x hx
    rw [hat] at hx
    split at hx
    . next hj => rw [List.mem_singleton] at hx; rw [hx, hj]; rfl
    . cases hx
  . intro x hx p hp
    rw [hmembers, List.mem_singleton] at hx
    rw [hx] at hp
    cases hp
  . intro x _
    rw [hnil, hat]
    simp
  . intro x _
    rw [hnil]
    rfl
  . intro u hu
    cases hu
  . exact List.nodup_nil

/-- One step of `ensurePath.go` that creates a member: `name` as the last child of `current`,
listed at depth `depth + 1`. -/
def addChild (d : HierarchyDef) (current : Member) (depth : Nat) (name : String) : HierarchyDef :=
  { d with
    children := assocSet d.children current.uniqueName
      (d.childrenOf current ++ [Member.child current name (d.childrenOf current).length])
    byDepth := d.byDepth.modify (depth + 1)
      (· ++ [Member.child current name (d.childrenOf current).length]) }

section AddChild

variable {d : HierarchyDef} {current : Member} {depth : Nat} {name : String}

theorem addChild_members_perm (hj : depth + 1 < d.byDepth.length) :
    (d.addChild current depth name).members.Perm
      (d.members ++ [Member.child current name (d.childrenOf current).length]) :=
  flatten_modify_append_perm _ hj

theorem addChild_atDepth (hj : depth + 1 < d.byDepth.length) (i : Nat) :
    (d.addChild current depth name).atDepth i =
      if i = depth + 1 then
        d.atDepth i ++ [Member.child current name (d.childrenOf current).length]
      else d.atDepth i := by
  simp only [addChild, atDepth, List.getD_eq_getElem?_getD]
  split
  . next hi =>
    subst hi
    rw [List.getElem?_modify_eq, List.getElem?_eq_getElem hj]
    rfl
  . next hi => rw [List.getElem?_modify_ne _ _ (Ne.symm hi)]

theorem addChild_childrenOf (x : Member) :
    (d.addChild current depth name).childrenOf x =
      if current.uniqueName = x.uniqueName then
        d.childrenOf current ++ [Member.child current name (d.childrenOf current).length]
      else d.childrenOf x := by
  simp only [childrenOf, addChild]
  rw [find?_assocSet]
  split <;> rfl

end AddChild

namespace Wf

variable {k : Nat} {d : HierarchyDef} {current : Member} {depth : Nat} {name : String}

theorem childrenOf_eq_nil (hd : d.Wf k) {u : Member}
    (hu : ∀ x ∈ d.members, x.uniqueName ≠ u.uniqueName) : d.childrenOf u = [] := by
  have hnone : d.children.find? (·.1 == u.uniqueName) = none := by
    refine List.find?_eq_none.mpr fun e he hek => ?_
    obtain ⟨x, hx, hxe⟩ := hd.keys e.1 (List.mem_map_of_mem he)
    exact hu x hx (hxe.trans (by simpa using hek))
  simp [childrenOf, hnone]

theorem fresh (hd : d.Wf k) (hcur : current ∈ d.members) (hname : SegmentSafe name)
    (hnew : (d.childrenOf current).find? (·.name == name) = none) (o : Nat) :
    ∀ x ∈ d.members, x.uniqueName ≠ (Member.child current name o).uniqueName := by
  intro x hx hxc
  obtain ⟨px, hpx, hpxs⟩ := hd.onPath x hx
  obtain ⟨pc, hpc, hpcs⟩ := hd.onPath current hcur
  have hsafe : ∀ n ∈ pc ++ [name], SegmentSafe n := by
    intro n hn
    rcases List.mem_append.mp hn with hn | hn
    . exact hpcs n hn
    . rw [List.mem_singleton.mp hn]; exact hname
  -- the same unique name means the same path, so `x` is a child of `current` named `name`
  obtain ⟨-, rfl⟩ := hpx.eq_of_uniqueName (.child name o hpc) hd.safe hd.safe hpxs hsafe hxc
  obtain ⟨q, o', rfl, hq⟩ := hpx.of_append
  have hqcur : q = current := hd.eq_of_uniqueName (hd.parent_mem _ hx q rfl) hcur (by
    rw [← String.toList_inj, hq.uniqueName_toList, hpc.uniqueName_toList])
  subst hqcur
  have hxS : Member.child q name o' ∈ d.childrenOf q := by
    rw [hd.children_eq q hcur]
    refine List.mem_filter.mpr ⟨?_, by simp⟩
    simpa using hd.mem_atDepth hx
  rw [List.find?_eq_none] at hnew
  exact hnew _ hxS (by simp)

theorem addChild (hd : d.Wf k) (hcur : current ∈ d.members) (hdepth : current.depth = depth)
    (hj : depth + 1 < d.byDepth.length) (hname : SegmentSafe name)
    (hnew : (d.childrenOf current).find? (·.name == name) = none) :
    (d.addChild current depth name).Wf k := by
  set c := Member.child current name (d.childrenOf current).length with hc
  have hfresh := hd.fresh hcur hname hnew (d.childrenOf current).length
  have hmem : ∀ x, x ∈ (d.addChild current depth name).members ↔ x ∈ d.members ∨ x = c := by
    intro x
    rw [(addChild_members_perm hj).mem_iff]
    simp [hc]
  have hcdepth : c.depth = depth + 1 := by simp [hc, hdepth]
  -- the children of `c` and of members other than `current` are as they were
  have hother : ∀ x, current.uniqueName ≠ x.uniqueName →
      (c :: []).filter (·.parent.any (· == x)) = [] := by
    intro x hx
    simp [hc, hx]
  refine ⟨hd.safe, hd.all_eq, ?_, ?_, ?_, ?_, ?_, ?_, ?_, ?_, ?_, ?_⟩
  . show (d.byDepth.modify (depth + 1) _)[0]? = _
    rw [List.getElem?_modify_ne _ _ (Nat.succ_ne_zero depth)]
    exact hd.top
  . simpa [HierarchyDef.addChild] using hd.length_eq
  . intro x hx
    rcases (hmem x).mp hx with hx | rfl
    . exact hd.onPath x hx
    . obtain ⟨pc, hpc, hpcs⟩ := hd.onPath current hcur
      refine ⟨pc ++ [name], .child name _ hpc, fun n hn => ?_⟩
      rcases List.mem_append.mp hn with hn | hn
      . exact hpcs n hn
      . rw [List.mem_singleton.mp hn]; exact hname
  . rw [((addChild_members_perm hj).map Member.uniqueName).nodup_iff, List.map_append,
      List.nodup_append]
    refine ⟨hd.distinct, List.nodup_singleton _, ?_⟩
    intro a ha b hb
    obtain ⟨x, hx, rfl⟩ := List.mem_map.mp ha
    rw [List.map_singleton, List.mem_singleton] at hb
    exact hb ▸ hfresh x hx
  . intro i x hx
    rw [addChild_atDepth hj] at hx
    split at hx
    . next hi =>
      rcases List.mem_append.mp hx with hx | hx
      . exact hd.depth_eq i x hx
      . rw [List.mem_singleton.mp hx, hcdepth, hi]
    . exact hd.depth_eq i x hx
  . intro x hx p hp
    rcases (hmem x).mp hx with hx | rfl
    . exact (hmem p).mpr (.inl (hd.parent_mem x hx p hp))
    . cases hp
      exact (hmem _).mpr (.inl hcur)
  . intro x hx
    rw [addChild_childrenOf, addChild_atDepth hj]
    rcases (hmem x).mp hx with hx | rfl
    . split
      . -- `x` is `current`: its list gains the new member
        next hu =>
        have hxc : current = x := hd.eq_of_uniqueName hcur hx hu
        subst hxc
        rw [if_pos (by rw [hdepth]), List.filter_append, ← hd.children_eq current hcur]
        simp
      . next hu =>
        rw [hd.children_eq x hx]
        split
        . rw [List.filter_append, hother x hu, List.append_nil]
        . rfl
    . rw [if_neg (hfresh current hcur), if_neg (by omega), hd.childrenOf_eq_nil hfresh]
      symm
      refine List.filter_eq_nil_iff.mpr fun y hy hpy => ?_
      cases hp : y.parent with
      | none => simp [hp] at hpy
      | some p =>
        rw [hp] at hpy
        exact hfresh p (hd.parent_mem y (mem_members.mpr ⟨_, hy⟩) p hp) (by simpa [hc] using hpy)
  . intro x hx
    rw [addChild_childrenOf]
    rcases (hmem x).mp hx with hx | rfl
    . split
      . next hu =>
        have hxc : current = x := hd.eq_of_uniqueName hcur hx hu
        subst hxc
        rw [List.map_append, hd.ordinals current hcur, List.length_append, List.length_singleton,
          List.range_succ]
        simp
      . exact hd.ordinals x hx
    . rw [if_neg (hfresh current hcur), hd.childrenOf_eq_nil hfresh]
      rfl
  . intro u hu
    rcases mem_keys_assocSet hu with hu | rfl
    . obtain ⟨x, hx, hxu⟩ := hd.keys u hu
      exact ⟨x, (hmem x).mpr (.inl hx), hxu⟩
    . exact ⟨current, (hmem current).mpr (.inl hcur), rfl⟩
  . exact nodup_keys_assocSet hd.keys_nodup _ _

theorem go (hd : d.Wf k) {path : List String} (hcur : current ∈ d.members)
    (hdepth : current.depth = depth) (hlen : depth + path.length < d.byDepth.length)
    (hpath : ∀ n ∈ path, SegmentSafe n) :
    (ensurePath.go d current depth path).1.Wf k ∧
      ∃ children byDepth, (ensurePath.go d current depth path).1 = { d with children, byDepth } := by
  induction path generalizing d current depth with
  | nil => exact ⟨hd, d.children, d.byDepth, rfl⟩
  | cons name rest ih =>
    have hrest : ∀ n ∈ rest, SegmentSafe n := fun n hn => hpath n (List.mem_cons_of_mem _ hn)
    have hlen' : depth + 1 + rest.length < d.byDepth.length := by
      rw [List.length_cons] at hlen
      omega
    simp only [ensurePath.go]
    split
    . -- an existing child of that name: go on from it
      next existing hfind =>
      have hex := List.mem_of_find?_eq_some hfind
      rw [hd.children_eq current hcur] at hex
      have hexat := (List.mem_filter.mp hex).1
      exact ih hd (mem_members.mpr ⟨_, hexat⟩) (by rw [hd.depth_eq _ _ hexat, hdepth]) hlen' hrest
    . -- a new last child
      next hfind =>
      have hnew := hd.addChild hcur hdepth (by omega) (hpath name List.mem_cons_self) hfind
      have hchild : Member.child current name (d.childrenOf current).length ∈
          (d.addChild current depth name).members :=
        (addChild_members_perm (by omega)).mem_iff.mpr (List.mem_append_right _ (List.mem_singleton_self _))
      have hchildDepth : (Member.child current name (d.childrenOf current).length).depth =
          depth + 1 := by simp [hdepth]
      obtain ⟨hwf, ch, bd, heq⟩ := ih hnew hchild hchildDepth
        (by simpa [HierarchyDef.addChild] using hlen') hrest
      exact ⟨hwf, ch, bd, heq⟩

theorem ensurePath (hd : d.Wf k) {path : List String} (hpath : ∀ n ∈ path, SegmentSafe n)
    {d' : HierarchyDef} {m : Member} (h : d.ensurePath path = .ok (d', m)) :
    d'.Wf k ∧ ∃ children byDepth, d' = { d with children, byDepth } := by
  unfold HierarchyDef.ensurePath at h
  split at h
  . cases h
  . next hshort =>
    have hgo : ensurePath.go d d.all 0 path = (d', m) := Except.ok.inj h
    have hall : d.all.depth = 0 := by rw [hd.all_eq]; rfl
    have hwalk := hd.go hd.all_mem hall (by rw [hd.length_eq]; omega) hpath
    rwa [hgo] at hwalk

theorem prefix_mem (hd : d.Wf k) {m : Member} {path p : List String} (hm : m ∈ d.members)
    (h : m.OnPath k d.name path) (hp : p <+: path) : ∃ y ∈ d.members, y.OnPath k d.name p := by
  induction h generalizing p with
  | all =>
    obtain rfl := List.prefix_nil.mp hp
    exact ⟨_, hm, .all⟩
  | child n o hq ih =>
    rcases List.prefix_concat_iff.mp hp with rfl | hp
    . exact ⟨_, hm, .child n o hq⟩
    . exact ih (hd.parent_mem _ hm _ rfl) hp

theorem mem_childrenOf_iff (hd : d.Wf k) {current y : Member} {p0 : List String}
    (hcur : current ∈ d.members) (hp0 : current.OnPath k d.name p0)
    (hp0s : ∀ n ∈ p0, SegmentSafe n) :
    y ∈ d.childrenOf current ↔ y ∈ d.members ∧ ∃ n, y.OnPath k d.name (p0 ++ [n]) := by
  rw [hd.children_eq current hcur, List.mem_filter]
  constructor
  . rintro ⟨hy, hpar⟩
    have hym := mem_members.mpr ⟨_, hy⟩
    refine ⟨hym, ?_⟩
    obtain ⟨py, hpy, hpys⟩ := hd.onPath y hym
    cases hq : y.parent with
    | none => rw [hq] at hpar; cases hpar
    | some q =>
      rw [hq] at hpar
      -- the path of `y` ends in a name, and its parent's path is the path of `current`
      rcases List.eq_nil_or_concat py with rfl | ⟨py', n, rfl⟩
      . rw [hpy.eq_all] at hq
        cases hq
      rw [List.concat_eq_append] at hpy hpys
      obtain ⟨q', o, rfl, hq'⟩ := hpy.of_append
      cases hq
      have hsafe' : ∀ n ∈ py', SegmentSafe n := fun n hn => hpys n (List.mem_append_left _ hn)
      obtain ⟨-, rfl⟩ := hq'.eq_of_uniqueName hp0 hd.safe hd.safe hsafe' hp0s (by simpa using hpar)
      exact ⟨n, hpy⟩
  . rintro ⟨hym, n, hpy⟩
    obtain ⟨q, o, rfl, hq⟩ := hpy.of_append
    have hqcur : q = current :=
      hd.eq_of_uniqueName (hd.parent_mem _ hym q rfl) hcur (hq.uniqueName_eq hp0)
    subst hqcur
    exact ⟨by simpa using hd.mem_atDepth hym, by simp⟩

end Wf

end HierarchyDef

/-- A call of the cube builder's interface. -/
inductive BuilderCall where
  | addMeasure (name : String) (aggregator : Aggregator)
  | addHierarchy (name : String) (levels : List String)
  | setRagged (hierarchy : Nat) (ragged : Bool)
  | addMembers (hierarchy : Nat) (path : List String)
  | addFact (coordinate : List (Nat × List String)) (values : List (String × Float))

namespace BuilderCall

/-- The builder after a call, whether or not it succeeds: a refused fact keeps the members its
coordinate placed, and the other calls fail before they change anything. -/
def apply (b : CubeBuilder) : BuilderCall → CubeBuilder
  | .addMeasure name agg => b.addMeasure name agg
  | .addHierarchy name levels => (b.addHierarchy name levels).1
  | .setRagged h ragged => (b.setRagged h ragged).toOption.getD b
  | .addMembers h path => ((b.addMembers h path).map (·.1)).toOption.getD b
  | .addFact coordinate values => (b.addFact coordinate values).1

/-- The names a call gives are free of the separator, and a hierarchy it declares is not called
`Measures`. -/
def NamesSafe : BuilderCall → Prop
  | .addHierarchy name _ => SegmentSafe name ∧ name ≠ "Measures"
  | .addMembers _ path => ∀ n ∈ path, SegmentSafe n
  | .addFact coordinate _ => ∀ e ∈ coordinate, ∀ n ∈ e.2, SegmentSafe n
  | _ => True

instance : DecidablePred NamesSafe
  | .addMeasure _ _ => inferInstanceAs (Decidable True)
  | .addHierarchy name _ => inferInstanceAs (Decidable (SegmentSafe name ∧ name ≠ "Measures"))
  | .setRagged _ _ => inferInstanceAs (Decidable True)
  | .addMembers _ path => inferInstanceAs (Decidable (∀ n ∈ path, SegmentSafe n))
  | .addFact coordinate _ =>
    inferInstanceAs (Decidable (∀ e ∈ coordinate, ∀ n ∈ e.2, SegmentSafe n))

/-- The name of the hierarchy a call declares. -/
def hierarchyName? : BuilderCall → Option String
  | .addHierarchy name _ => some name
  | _ => none

/-- The name of the measure a call declares. -/
def measureName? : BuilderCall → Option String
  | .addMeasure name _ => some name
  | _ => none

end BuilderCall

namespace CubeBuilder

/-- The builder after a sequence of calls, from an empty one. -/
def replay (calls : List BuilderCall) : CubeBuilder := calls.foldl BuilderCall.apply {}

/-- What a builder holds: every hierarchy under construction keeps its invariant under its id,
hierarchy names are distinct and none is `Measures`, and measure names are distinct. -/
structure Wf (b : CubeBuilder) : Prop where
  defs : ∀ i (d : HierarchyDef), b.hierarchies[i]? = some d → d.Wf (i + 1)
  names : (b.hierarchies.map (·.name)).Nodup
  notMeasures : ∀ d ∈ b.hierarchies, d.name ≠ "Measures"
  measures : (b.measures.map (·.1)).Nodup

theorem wf_empty : ({} : CubeBuilder).Wf := by
  refine ⟨fun i d h => ?_, List.nodup_nil, fun d h => ?_, List.nodup_nil⟩
  . simp at h
  . simp at h

theorem hierarchyDef_eq_ok {b : CubeBuilder} {h : Nat} {d : HierarchyDef}
    (hd : b.hierarchyDef h = .ok d) : h ≠ 0 ∧ b.hierarchies[h - 1]? = some d := by
  unfold hierarchyDef at hd
  split at hd
  . next d' hsome =>
    cases hd
    by_cases h0 : h = 0
    . simp [h0] at hsome
    . simp only [h0, beq_iff_eq, if_false] at hsome
      exact ⟨h0, hsome⟩
  . cases hd

/-- `b'` declares the hierarchies and measures of `b`, under the same names. -/
def SameNames (b b' : CubeBuilder) : Prop :=
  b'.hierarchies.map (·.name) = b.hierarchies.map (·.name) ∧ b'.measures = b.measures

theorem SameNames.refl (b : CubeBuilder) : SameNames b b := ⟨rfl, rfl⟩

theorem SameNames.trans {b₁ b₂ b₃ : CubeBuilder} (h₁ : SameNames b₁ b₂) (h₂ : SameNames b₂ b₃) :
    SameNames b₁ b₃ :=
  ⟨h₂.1.trans h₁.1, h₂.2.trans h₁.2⟩

theorem updateDef_sameNames {b : CubeBuilder} {h : Nat} {d d' : HierarchyDef}
    (hget : b.hierarchies[h - 1]? = some d) (hname : d'.name = d.name) :
    SameNames b (b.updateDef h d') := by
  obtain ⟨hlt, hdget⟩ := List.getElem?_eq_some_iff.mp hget
  refine ⟨?_, rfl⟩
  apply List.ext_getElem?
  intro i
  simp only [CubeBuilder.updateDef, List.getElem?_map, List.getElem?_set]
  split
  . next hi =>
    subst hi
    simp [hlt, hname, ← hdget]
  . rfl

theorem Wf.updateDef {b : CubeBuilder} (hb : b.Wf) {h : Nat} {d d' : HierarchyDef}
    (hget : b.hierarchies[h - 1]? = some d) (hname : d'.name = d.name) (hd' : d'.Wf h)
    (h0 : h ≠ 0) : (b.updateDef h d').Wf := by
  obtain ⟨hlt, -⟩ := List.getElem?_eq_some_iff.mp hget
  refine ⟨fun i e he => ?_, (updateDef_sameNames hget hname).1 ▸ hb.names, fun e he => ?_,
    hb.measures⟩
  . simp only [CubeBuilder.updateDef, List.getElem?_set] at he
    split at he
    . next hi =>
      subst hi
      simp only [Option.some.injEq] at he
      subst he
      rwa [Nat.sub_add_cancel (Nat.pos_of_ne_zero h0)]
    . exact hb.defs i e he
  . rcases List.mem_or_eq_of_mem_set he with he | rfl
    . exact hb.notMeasures e he
    . rw [hname]
      exact hb.notMeasures d (List.mem_of_getElem? hget)

namespace Wf

variable {b : CubeBuilder}

theorem withFacts (hb : b.Wf) (facts : List Fact) : ({ b with facts } : CubeBuilder).Wf :=
  ⟨hb.defs, hb.names, hb.notMeasures, hb.measures⟩

theorem addMeasure (hb : b.Wf) {name : String} (hfresh : name ∉ b.measures.map (·.1))
    (agg : Aggregator) : (b.addMeasure name agg).Wf := by
  refine ⟨hb.defs, hb.names, hb.notMeasures, ?_⟩
  simp only [CubeBuilder.addMeasure, List.map_append, List.map_singleton]
  exact List.nodup_append.mpr ⟨hb.measures, List.nodup_singleton _,
    fun a ha c hc => by rw [List.mem_singleton.mp hc]; exact fun h => hfresh (h ▸ ha)⟩

theorem addHierarchy (hb : b.Wf) {name : String} (hsafe : SegmentSafe name)
    (hne : name ≠ "Measures") (hfresh : name ∉ b.hierarchies.map (·.name))
    (levels : List String) : (b.addHierarchy name levels).1.Wf := by
  refine ⟨fun i d hd => ?_, ?_, fun d hd => ?_, hb.measures⟩
  . simp only [CubeBuilder.addHierarchy, List.getElem?_append] at hd
    split at hd
    . exact hb.defs i d hd
    . next hi =>
      -- the new hierarchy sits at the end, under the next id
      have hi' : i = b.hierarchies.length := by
        have := List.getElem?_eq_some_iff.mp hd |>.1
        simp at this
        omega
      subst hi'
      simp only [Nat.sub_self, List.getElem?_cons_zero, Option.some.injEq] at hd
      subst hd
      exact HierarchyDef.create_wf levels hsafe
  . simp only [CubeBuilder.addHierarchy, List.map_append, List.map_singleton]
    exact List.nodup_append.mpr ⟨hb.names, List.nodup_singleton _,
      fun a ha c hc => by
        rw [List.mem_singleton.mp hc]
        exact fun h => hfresh (by simpa [h, HierarchyDef.create] using ha)⟩
  . simp only [CubeBuilder.addHierarchy, List.mem_append, List.mem_singleton] at hd
    rcases hd with hd | rfl
    . exact hb.notMeasures d hd
    . exact hne

theorem setRagged (hb : b.Wf) {h : Nat} {ragged : Bool} {b' : CubeBuilder}
    (hset : b.setRagged h ragged = .ok b') : b'.Wf ∧ SameNames b b' := by
  obtain ⟨d, hd, hb'⟩ := bind_eq_ok.mp hset
  cases hb'
  obtain ⟨h0, hget⟩ := hierarchyDef_eq_ok hd
  have hdwf := hb.defs _ _ hget
  rw [Nat.sub_add_cancel (Nat.pos_of_ne_zero h0)] at hdwf
  exact ⟨hb.updateDef hget rfl ⟨hdwf.safe, hdwf.all_eq, hdwf.top, hdwf.length_eq, hdwf.onPath,
    hdwf.distinct, hdwf.depth_eq, hdwf.parent_mem, hdwf.children_eq, hdwf.ordinals, hdwf.keys,
    hdwf.keys_nodup⟩ h0,
    updateDef_sameNames hget rfl⟩

theorem addMembers (hb : b.Wf) {h : Nat} {path : List String} (hpath : ∀ n ∈ path, SegmentSafe n)
    {b' : CubeBuilder} {m : Member} (hadd : b.addMembers h path = .ok (b', m)) :
    b'.Wf ∧ SameNames b b' := by
  obtain ⟨d, hd, hrest⟩ := bind_eq_ok.mp hadd
  obtain ⟨⟨d', m'⟩, hens, hb'⟩ := bind_eq_ok.mp hrest
  cases hb'
  obtain ⟨h0, hget⟩ := hierarchyDef_eq_ok hd
  have hdwf := hb.defs _ _ hget
  rw [Nat.sub_add_cancel (Nat.pos_of_ne_zero h0)] at hdwf
  obtain ⟨hd'wf, ch, bd, rfl⟩ := hdwf.ensurePath hpath hens
  exact ⟨hb.updateDef hget rfl hd'wf h0, updateDef_sameNames hget rfl⟩

theorem place (hb : b.Wf) {coordinate : List (Nat × List String)}
    (hcoord : ∀ e ∈ coordinate, ∀ n ∈ e.2, SegmentSafe n) (members : List Member) :
    (b.place members coordinate).1.Wf ∧ SameNames b (b.place members coordinate).1 := by
  induction coordinate generalizing b members with
  | nil => exact ⟨hb, SameNames.refl b⟩
  | cons entry rest ih =>
    obtain ⟨h, path⟩ := entry
    simp only [CubeBuilder.place]
    cases hadd : b.addMembers h path with
    | error _ => exact ⟨hb, SameNames.refl b⟩
    | ok r =>
      -- the entry places its path with `addMembers`, the rest continue from there
      obtain ⟨hwf, hsame⟩ := hb.addMembers (hcoord _ List.mem_cons_self) hadd
      obtain ⟨hwf', hsame'⟩ := ih hwf (fun e he => hcoord e (List.mem_cons_of_mem _ he)) _
      exact ⟨hwf', hsame.trans hsame'⟩

theorem addFact (hb : b.Wf) {coordinate : List (Nat × List String)}
    (hcoord : ∀ e ∈ coordinate, ∀ n ∈ e.2, SegmentSafe n) (values : List (String × Float)) :
    (b.addFact coordinate values).1.Wf ∧ SameNames b (b.addFact coordinate values).1 := by
  obtain ⟨hwf, hsame⟩ := hb.place hcoord (b.hierarchies.map (·.all))
  unfold CubeBuilder.addFact
  -- refused or not, the builder is the placed one, with a row more when the fact is recorded
  split
  next heq =>
    rw [heq] at hwf hsame
    exact ⟨hwf, hsame⟩
  next heq =>
    rw [heq] at hwf hsame
    dsimp only
    split
    . exact ⟨hwf.withFacts _, hsame⟩
    . exact ⟨hwf, hsame⟩

theorem apply (hb : b.Wf) (c : BuilderCall) (hsafe : c.NamesSafe)
    (hh : (b.hierarchies.map (·.name) ++ c.hierarchyName?.toList).Nodup)
    (hm : (b.measures.map (·.1) ++ c.measureName?.toList).Nodup) :
    (c.apply b).Wf ∧
      (c.apply b).hierarchies.map (·.name) = b.hierarchies.map (·.name) ++ c.hierarchyName?.toList ∧
      (c.apply b).measures.map (·.1) = b.measures.map (·.1) ++ c.measureName?.toList := by
  -- a call that keeps the names, and leaves the builder as it was when it fails before any change
  have keeping : ∀ (x : Except OlapError CubeBuilder), (∀ b', x = .ok b' → b'.Wf ∧ SameNames b b') →
      (x.toOption.getD b).Wf ∧
        (x.toOption.getD b).hierarchies.map (·.name) = b.hierarchies.map (·.name) ∧
        (x.toOption.getD b).measures.map (·.1) = b.measures.map (·.1) := by
    intro x hx
    cases x with
    | error _ => exact ⟨hb, rfl, rfl⟩
    | ok b' =>
      obtain ⟨hwf, hnames, hmeasures⟩ := hx b' rfl
      exact ⟨hwf, hnames, congrArg _ hmeasures⟩
  cases c with
  | addMeasure name agg =>
    simp only [BuilderCall.apply, BuilderCall.hierarchyName?, BuilderCall.measureName?,
      Option.toList_none, Option.toList_some, List.append_nil] at hm ⊢
    refine ⟨hb.addMeasure (List.disjoint_of_nodup_append hm · (List.mem_singleton_self _)) agg,
      rfl, ?_⟩
    simp [CubeBuilder.addMeasure]
  | addHierarchy name levels =>
    simp only [BuilderCall.apply, BuilderCall.hierarchyName?, BuilderCall.measureName?,
      Option.toList_none, Option.toList_some, List.append_nil] at hh ⊢
    refine ⟨hb.addHierarchy hsafe.1 hsafe.2
      (List.disjoint_of_nodup_append hh · (List.mem_singleton_self _)) levels, ?_, rfl⟩
    simp [CubeBuilder.addHierarchy, HierarchyDef.create]
  | setRagged h ragged =>
    simp only [BuilderCall.apply, BuilderCall.hierarchyName?, BuilderCall.measureName?,
      Option.toList_none, List.append_nil]
    exact keeping _ fun _ => hb.setRagged
  | addMembers h path =>
    simp only [BuilderCall.apply, BuilderCall.hierarchyName?, BuilderCall.measureName?,
      Option.toList_none, List.append_nil]
    refine keeping _ fun b' hadd => ?_
    cases hmembers : b.addMembers h path with
    | error _ => simp [hmembers, Except.map] at hadd
    | ok r =>
      simp only [hmembers, Except.map, Except.ok.injEq] at hadd
      subst hadd
      exact hb.addMembers hsafe hmembers
  | addFact coordinate values =>
    simp only [BuilderCall.apply, BuilderCall.hierarchyName?, BuilderCall.measureName?,
      Option.toList_none, List.append_nil]
    obtain ⟨hwf, hnames, hmeasures⟩ := hb.addFact hsafe values
    exact ⟨hwf, hnames, congrArg _ hmeasures⟩

theorem foldl_apply {calls : List BuilderCall} (hb : b.Wf) (hsafe : ∀ c ∈ calls, c.NamesSafe)
    (hh : (b.hierarchies.map (·.name) ++ calls.filterMap BuilderCall.hierarchyName?).Nodup)
    (hm : (b.measures.map (·.1) ++ calls.filterMap BuilderCall.measureName?).Nodup) :
    (calls.foldl BuilderCall.apply b).Wf := by
  induction calls generalizing b with
  | nil => exact hb
  | cons c calls ih =>
    have split : ∀ (f : BuilderCall → Option String) (l : List String),
        (l ++ (c :: calls).filterMap f) = (l ++ (f c).toList) ++ calls.filterMap f := by
      intro f l
      cases hc : f c <;> simp [hc]
    rw [split] at hh hm
    obtain ⟨hwf, hnames, hmeasures⟩ := hb.apply c (hsafe c List.mem_cons_self)
      (List.Nodup.of_append_left hh) (List.Nodup.of_append_left hm)
    rw [List.foldl_cons]
    exact ih hwf (fun c' hc' => hsafe c' (List.mem_cons_of_mem c hc'))
      (hnames ▸ hh) (hmeasures ▸ hm)

end Wf

end CubeBuilder

end OlapCalc
