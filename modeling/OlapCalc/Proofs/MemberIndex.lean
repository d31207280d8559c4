import OlapCalc.Proofs.CubeBuilding

/-!
The member index of a built cube.

For a builder whose hierarchies keep their invariant, `build` gives a cube whose index is
consistent (`Cube.IndexConsistent`): distinct members have distinct unique names, a lookup finds
every member by its unique name and only by it, children are listed under their parent in
creation order with ordinals `0, 1, 2, ...`, and each level lists exactly the members at its
depth. A name holding the separator `].[` breaks this.
-/

namespace OlapCalc

theorem filter_flatten_of_only {α : Type} {P : α → Bool} :
    ∀ {L : List (List α)} (i : Nat),
      (∀ j (hj : j < L.length), j ≠ i → L[j].filter P = []) →
      L.flatten.filter P = (L.getD i []).filter P
  | [], _, _ => by simp
  | l :: L, 0, h => by
    have hrest : ∀ j (hj : j < L.length), L[j].filter P = [] := fun j hj =>
      h (j + 1) (by simpa using hj) (Nat.succ_ne_zero j)
    have hnil : L.flatten.filter P = [] := by
      rw [List.filter_flatten]
      simp only [List.flatten_eq_nil_iff, List.mem_map]
      rintro _ ⟨l', hl', rfl⟩
      obtain ⟨j, hj, rfl⟩ := List.getElem_of_mem hl'
      exact hrest j hj
    simp [List.filter_append, hnil]
  | l :: L, i + 1, h => by
    have hl : l.filter P = [] := h 0 (by simp) (Nat.succ_ne_zero i).symm
    rw [List.flatten_cons, List.filter_append, hl, List.nil_append,
      filter_flatten_of_only i (fun j hj hji => h (j + 1) (by simpa using hj) (by omega))]
    simp

theorem find?_eq_of_unique {α : Type} {p : α → Bool} {l big : List α} (hsub : ∀ e ∈ l, e ∈ big)
    (hin : ∀ e ∈ big, p e → e ∈ l) (huniq : ∀ e ∈ big, ∀ e' ∈ big, p e → p e' → e = e') :
    big.find? p = l.find? p := by
  cases hl : l.find? p with
  | none =>
    rw [List.find?_eq_none] at hl ⊢
    exact fun e he hpe => hl e (hin e he hpe) hpe
  | some e =>
    have he := List.mem_of_find?_eq_some hl
    have hpe := List.find?_some hl
    obtain ⟨e', he'⟩ := Option.isSome_iff_exists.mp
      (List.find?_isSome.mpr ⟨e, hsub e he, hpe⟩)
    rw [he', huniq e' (List.mem_of_find?_eq_some he') e (hsub e he) (List.find?_some he') hpe]

theorem find?_eq_some_of_unique {α : Type} {p : α → Bool} {l : List α} {y : α} (hy : y ∈ l)
    (hpy : p y = true) (huniq : ∀ e ∈ l, p e = true → e = y) : l.find? p = some y := by
  rw [find?_eq_of_unique (l := [y]) (by simpa using hy) (fun e he hpe => by simp [huniq e he hpe])
    (fun e he e' he' hpe hpe' => (huniq e he hpe).trans (huniq e' he' hpe').symm)]
  simp [hpy]

namespace Cube

/-- Every member of a cube, level by level: the measures, then each hierarchy's members depth by
depth, each level in creation order. -/
def members (c : Cube) : List Member := (c.levels.map List.flatten).flatten

/-- The member index of a cube is consistent. -/
structure IndexConsistent (c : Cube) : Prop where
  /-- Distinct members have distinct unique names. -/
  distinct : (c.members.map Member.uniqueName).Nodup
  /-- A lookup finds every member by its unique name. -/
  resolve_member : ∀ m ∈ c.members, c.resolve? m.uniqueName = some m
  /-- A lookup finds only members, of the name looked up. -/
  resolve_name : ∀ u m, c.resolve? u = some m → m ∈ c.members ∧ m.uniqueName = u
  /-- A member's children are the members whose parent it is, in creation order. -/
  children : ∀ m ∈ c.members, c.childrenOf m = c.members.filter (·.parent.any (· == m))
  /-- Children are numbered from zero. -/
  ordinals : ∀ m ∈ c.members,
    (c.childrenOf m).map Member.ordinal = List.range (c.childrenOf m).length
  /-- A level lists the members of its hierarchy and depth, in creation order. -/
  levels : ∀ (l : LevelRef) ms, c.levelMembers l = .ok ms →
    ms = c.members.filter fun m => m.hierarchy == l.hierarchy && m.depth == l.depth

end Cube

namespace CubeBuilder

theorem build_spec {b : CubeBuilder} {c : Cube} (h : b.build = .ok c) :
    c.measures = b.measures.zipIdx.map (fun e => Member.measure 0 e.1.1 e.1.2 e.2) ∧
    c.levels = [c.measures] :: b.hierarchies.map (·.byDepth) ∧
    c.children = b.hierarchies.foldl
      (fun acc d => d.children.foldl (fun acc e => assocSet acc e.1 e.2) acc) [] ∧
    (c.hierarchies.filter (!·.isMeasures)).map (·.defaultMember) = b.hierarchies.map (·.all) := by
  unfold CubeBuilder.build at h
  dsimp only at h
  split at h
  . next first hfirst =>
    cases h
    refine ⟨rfl, rfl, rfl, ?_⟩
    simp [Hierarchy.isMeasures, Hierarchy.defaultMember, List.filter_map, Function.comp_def]
    conv_rhs => rw [← List.zipIdx_map_fst 0 b.hierarchies, List.map_map]
    rfl
  . cases h

namespace Wf

variable {b : CubeBuilder} {c : Cube}

theorem def_wf (hb : b.Wf) {d : HierarchyDef} (hd : d ∈ b.hierarchies) :
    ∃ i, b.hierarchies[i]? = some d ∧ d.Wf (i + 1) := by
  obtain ⟨i, hi, rfl⟩ := List.getElem_of_mem hd
  exact ⟨i, List.getElem?_eq_getElem hi, hb.defs i _ (List.getElem?_eq_getElem hi)⟩

theorem eq_of_uniqueName (hb : b.Wf) {d d' : HierarchyDef} (hd : d ∈ b.hierarchies)
    (hd' : d' ∈ b.hierarchies) {x y : Member} (hx : x ∈ d.members) (hy : y ∈ d'.members)
    (hu : x.uniqueName = y.uniqueName) : d = d' ∧ x = y := by
  obtain ⟨i, -, hdwf⟩ := hb.def_wf hd
  obtain ⟨i', -, hd'wf⟩ := hb.def_wf hd'
  obtain ⟨px, hpx, hpxs⟩ := hdwf.onPath x hx
  obtain ⟨py, hpy, hpys⟩ := hd'wf.onPath y hy
  obtain ⟨hname, -⟩ := hpx.eq_of_uniqueName hpy hdwf.safe hd'wf.safe hpxs hpys hu
  obtain rfl : d = d' := List.inj_on_of_nodup_map hb.names hd hd' hname
  exact ⟨rfl, hdwf.eq_of_uniqueName hx hy hu⟩

theorem uniqueName_ne_measure (hb : b.Wf) {d : HierarchyDef} (hd : d ∈ b.hierarchies)
    {x : Member} (hx : x ∈ d.members) (j : Nat) (n : String) (a : Aggregator) (o : Nat) :
    x.uniqueName ≠ (Member.measure j n a o).uniqueName := by
  obtain ⟨i, -, hdwf⟩ := hb.def_wf hd
  obtain ⟨px, hpx, -⟩ := hdwf.onPath x hx
  exact hpx.uniqueName_ne_measure hdwf.safe (hb.notMeasures d hd) j n a o

section Built

theorem members_build (hbuild : b.build = .ok c) :
    c.members = c.measures ++ (b.hierarchies.map HierarchyDef.members).flatten := by
  obtain ⟨-, hlevels, -, -⟩ := build_spec hbuild
  simp only [Cube.members, hlevels, List.map_cons, List.flatten_cons, List.flatten_nil,
    List.append_nil, List.map_map]
  rfl

theorem mem_measures_build (hbuild : b.build = .ok c) {m : Member} (hm : m ∈ c.measures) :
    ∃ n a o, m = Member.measure 0 n a o := by
  obtain ⟨hmeasures, -⟩ := build_spec hbuild
  rw [hmeasures, List.mem_map] at hm
  obtain ⟨e, -, rfl⟩ := hm
  exact ⟨_, _, _, rfl⟩

theorem measures_nodup_build (hb : b.Wf) (hbuild : b.build = .ok c) :
    (c.measures.map Member.uniqueName).Nodup := by
  obtain ⟨hmeasures, -⟩ := build_spec hbuild
  have hnames : c.measures.map Member.uniqueName =
      (b.measures.map (·.1)).map fun n => "[Measures].[" ++ n ++ "]" := by
    rw [hmeasures, List.map_map, List.map_map]
    conv_rhs => rw [← List.zipIdx_map_fst 0 b.measures, List.map_map]
    rfl
  rw [hnames]
  refine hb.measures.map fun n n' h => String.toList_inj.mp ?_
  simpa [String.toList_append] using congrArg String.toList h

theorem mem_build (hbuild : b.build = .ok c) {m : Member} (hm : m ∈ c.members) :
    m ∈ c.measures ∨ ∃ d ∈ b.hierarchies, m ∈ d.members := by
  rw [members_build hbuild, List.mem_append, List.mem_flatten] at hm
  rcases hm with hm | ⟨l, hl, hm⟩
  . exact .inl hm
  . obtain ⟨d, hd, rfl⟩ := List.mem_map.mp hl
    exact .inr ⟨d, hd, hm⟩

theorem distinct_build (hb : b.Wf) (hbuild : b.build = .ok c) :
    (c.members.map Member.uniqueName).Nodup := by
  rw [members_build hbuild, List.map_append, List.nodup_append, List.map_flatten, List.map_map]
  refine ⟨measures_nodup_build hb hbuild, ?_, ?_⟩
  . -- within a hierarchy by its invariant, across hierarchies by their names
    rw [List.nodup_flatten]
    refine ⟨fun l hl => ?_, ?_⟩
    . obtain ⟨d, hd, rfl⟩ := List.mem_map.mp hl
      obtain ⟨i, -, hdwf⟩ := hb.def_wf hd
      exact hdwf.distinct
    . rw [List.pairwise_map]
      refine (List.pairwise_map.mp hb.names).imp_of_mem fun {d d'} hd hd' hne => ?_
      intro u hu hu'
      obtain ⟨x, hx, rfl⟩ := List.mem_map.mp hu
      obtain ⟨y, hy, hxy⟩ := List.mem_map.mp hu'
      exact hne (congrArg HierarchyDef.name (hb.eq_of_uniqueName hd hd' hx hy hxy.symm).1)
  . -- a measure's name is no member's of a hierarchy
    intro u hu u' hu' huu
    obtain ⟨m, hm, rfl⟩ := List.mem_map.mp hu
    obtain ⟨l, hl, hu'⟩ := List.mem_flatten.mp hu'
    obtain ⟨d, hd, rfl⟩ := List.mem_map.mp hl
    obtain ⟨x, hx, rfl⟩ := List.mem_map.mp hu'
    obtain ⟨n, a, o, rfl⟩ := mem_measures_build hbuild hm
    exact hb.uniqueName_ne_measure hd hx 0 n a o huu.symm

theorem keys_nodup (hb : b.Wf) : (((b.hierarchies.map (·.children)).flatten).map (·.1)).Nodup := by
  rw [List.map_flatten, List.map_map, List.nodup_flatten]
  refine ⟨fun l hl => ?_, ?_⟩
  . obtain ⟨d, hd, rfl⟩ := List.mem_map.mp hl
    obtain ⟨i, -, hdwf⟩ := hb.def_wf hd
    exact hdwf.keys_nodup
  . rw [List.pairwise_map]
    refine (List.pairwise_map.mp hb.names).imp_of_mem fun {d d'} hd hd' hne u hu hu' => ?_
    obtain ⟨i, -, hdwf⟩ := hb.def_wf hd
    obtain ⟨i', -, hd'wf⟩ := hb.def_wf hd'
    obtain ⟨x, hx, hxu⟩ := hdwf.keys u hu
    obtain ⟨y, hy, hyu⟩ := hd'wf.keys u hu'
    exact hne (congrArg HierarchyDef.name (hb.eq_of_uniqueName hd hd' hx hy (hxu.trans hyu.symm)).1)

theorem children_build (hb : b.Wf) (hbuild : b.build = .ok c) :
    c.children = (b.hierarchies.map (·.children)).flatten := by
  obtain ⟨-, -, hchildren, -⟩ := build_spec hbuild
  rw [hchildren]
  -- every hierarchy's entries are appended, their keys being new
  suffices ∀ (ds : List HierarchyDef) (acc : List (String × List Member)),
      ((acc ++ (ds.map (·.children)).flatten).map (·.1)).Nodup →
      ds.foldl (fun acc d => d.children.foldl (fun acc e => assocSet acc e.1 e.2) acc) acc =
        acc ++ (ds.map (·.children)).flatten by
    simpa using this b.hierarchies [] (by simpa using keys_nodup hb)
  intro ds
  induction ds with
  | nil => simp
  | cons d ds ih =>
    intro acc h
    rw [List.map_cons, List.flatten_cons, ← List.append_assoc] at h ⊢
    rw [List.foldl_cons, foldl_assocSet_of_nodup _ _ (List.Nodup.of_append_left (by
      simpa using h)), ih _ h]

theorem key_of_mem_children (hb : b.Wf) {e : String × List Member}
    (he : e ∈ (b.hierarchies.map (·.children)).flatten) :
    ∃ d ∈ b.hierarchies, e ∈ d.children ∧ ∃ y ∈ d.members, y.uniqueName = e.1 := by
  obtain ⟨l, hl, he⟩ := List.mem_flatten.mp he
  obtain ⟨d, hd, rfl⟩ := List.mem_map.mp hl
  obtain ⟨i, -, hdwf⟩ := hb.def_wf hd
  exact ⟨d, hd, he, hdwf.keys e.1 (List.mem_map_of_mem he)⟩

theorem childrenOf_build (hb : b.Wf) (hbuild : b.build = .ok c) {d : HierarchyDef}
    (hd : d ∈ b.hierarchies) {x : Member} (hx : x ∈ d.members) : c.childrenOf x = d.childrenOf x := by
  have hsub : ∀ e ∈ d.children, e ∈ (b.hierarchies.map (·.children)).flatten :=
    fun e he => List.mem_flatten.mpr ⟨_, List.mem_map_of_mem hd, he⟩
  simp only [Cube.childrenOf, HierarchyDef.childrenOf, children_build hb hbuild]
  rw [find?_eq_of_unique hsub]
  . -- an entry under the member's name belongs to its hierarchy
    intro e he hek
    obtain ⟨d', hd', he, y, hy, hyu⟩ := key_of_mem_children hb he
    obtain ⟨rfl, -⟩ := hb.eq_of_uniqueName hd hd' hx hy (hyu.trans (by simpa using hek)).symm
    exact he
  . intro e he e' he' hek hek'
    exact List.inj_on_of_nodup_map (keys_nodup hb) he he'
      ((by simpa using hek : e.1 = x.uniqueName).trans (by simpa using hek' : e'.1 = x.uniqueName).symm)

theorem childrenOf_measure_build (hb : b.Wf) (hbuild : b.build = .ok c) {m : Member}
    (hm : m ∈ c.measures) : c.childrenOf m = [] := by
  obtain ⟨n, a, o, rfl⟩ := mem_measures_build hbuild hm
  have hnone : c.children.find? (·.1 == (Member.measure 0 n a o).uniqueName) = none := by
    rw [List.find?_eq_none, children_build hb hbuild]
    intro e he hek
    obtain ⟨d, hd, -, y, hy, hyu⟩ := key_of_mem_children hb he
    exact hb.uniqueName_ne_measure hd hy 0 n a o (hyu.trans (by simpa using hek))
  unfold Cube.childrenOf
  rw [hnone]
  rfl

theorem mem_build_of_def (hbuild : b.build = .ok c) {d : HierarchyDef} (hd : d ∈ b.hierarchies)
    {x : Member} (hx : x ∈ d.members) : x ∈ c.members := by
  rw [members_build hbuild]
  exact List.mem_append_right _ (List.mem_flatten.mpr ⟨_, List.mem_map_of_mem hd, hx⟩)

theorem parent_build (hb : b.Wf) (hbuild : b.build = .ok c) {y m : Member} (hy : y ∈ c.members)
    (hm : m ∈ c.members) (h : y.parent.any (· == m) = true) :
    ∃ d ∈ b.hierarchies, y ∈ d.members ∧ m ∈ d.members ∧ y.depth = m.depth + 1 := by
  cases hp : y.parent with
  | none => simp [hp] at h
  | some p =>
    have hpm : p.uniqueName = m.uniqueName := by simpa [hp] using h
    rcases mem_build hbuild hy with hy | ⟨d, hd, hyd⟩
    . obtain ⟨n, a, o, rfl⟩ := mem_measures_build hbuild hy
      simp at hp
    . obtain ⟨i, -, hdwf⟩ := hb.def_wf hd
      have hpd : p ∈ d.members := hdwf.parent_mem y hyd p hp
      obtain rfl : p = m := List.inj_on_of_nodup_map (distinct_build hb hbuild)
        (mem_build_of_def hbuild hd hpd) hm hpm
      obtain ⟨path, hpath, -⟩ := hdwf.onPath y hyd
      exact ⟨d, hd, hyd, hpd, hpath.depth_of_parent hp⟩

theorem getElem_inj (hb : b.Wf) {i j : Nat} (hi : i < b.hierarchies.length)
    (hj : j < b.hierarchies.length) (h : b.hierarchies[j] = b.hierarchies[i]) : j = i :=
  (List.Nodup.getElem_inj_iff hb.names.of_map).mp h

theorem filter_members_build (hb : b.Wf) (hbuild : b.build = .ok c) {P : Member → Bool}
    {i : Nat} {d : HierarchyDef} (hi : b.hierarchies[i]? = some d)
    (hmeasures : ∀ m ∈ c.measures, P m = false)
    (honly : ∀ d' ∈ b.hierarchies, ∀ y ∈ d'.members, P y = true → d' = d) :
    c.members.filter P = d.members.filter P := by
  rw [members_build hbuild, List.filter_append, List.filter_eq_nil_iff.mpr
    (fun m hm hp => by simp [hmeasures m hm] at hp), List.nil_append,
    filter_flatten_of_only i]
  . simp [hi]
  . intro j hj hji
    rw [List.filter_eq_nil_iff]
    intro y hy hpy
    have hj' : j < b.hierarchies.length := by simpa using hj
    obtain ⟨hi', rfl⟩ := List.getElem?_eq_some_iff.mp hi
    rw [List.getElem_map] at hy
    exact hji (hb.getElem_inj hi' hj' (honly _ (List.getElem_mem hj') y hy hpy))

theorem childrenOf_eq_filter (hb : b.Wf) (hbuild : b.build = .ok c) {m : Member}
    (hm : m ∈ c.members) : c.childrenOf m = c.members.filter (·.parent.any (· == m)) := by
  rcases mem_build hbuild hm with hmm | ⟨d, hd, hmd⟩
  . -- nothing has a measure for parent
    rw [childrenOf_measure_build hb hbuild hmm, eq_comm, List.filter_eq_nil_iff]
    intro y hy h
    obtain ⟨d, hd, -, hmd, -⟩ := parent_build hb hbuild hy hm h
    obtain ⟨n, a, o, rfl⟩ := mem_measures_build hbuild hmm
    exact hb.uniqueName_ne_measure hd hmd 0 n a o rfl
  . obtain ⟨i, hi, hdwf⟩ := hb.def_wf hd
    rw [childrenOf_build hb hbuild hd hmd, hdwf.children_eq m hmd,
      filter_members_build hb hbuild hi (fun y hy => by
        obtain ⟨n, a, o, rfl⟩ := mem_measures_build hbuild hy
        simp)]
    . -- within the hierarchy, only the level below the member holds its children
      rw [HierarchyDef.members, filter_flatten_of_only (m.depth + 1)]
      . rfl
      . intro j hj hjne
        rw [List.filter_eq_nil_iff]
        intro y hy hpy
        have hyj : y ∈ d.atDepth j := by rwa [HierarchyDef.atDepth_eq_getElem hj]
        have hyd : y ∈ d.members := HierarchyDef.mem_members.mpr ⟨j, hyj⟩
        obtain ⟨-, -, -, -, hdepth⟩ :=
          parent_build hb hbuild (mem_build_of_def hbuild hd hyd) hm hpy
        exact hjne ((hdwf.depth_eq j y hyj).symm.trans hdepth)
    . intro d' hd' y hy hpy
      obtain ⟨d'', hd'', hyd'', hmd'', -⟩ :=
        parent_build hb hbuild (mem_build_of_def hbuild hd' hy) hm hpy
      exact (hb.eq_of_uniqueName hd' hd'' hy hyd'' rfl).1.trans
        (hb.eq_of_uniqueName hd'' hd hmd'' hmd rfl).1

theorem ordinals_build (hb : b.Wf) (hbuild : b.build = .ok c) {m : Member} (hm : m ∈ c.members) :
    (c.childrenOf m).map Member.ordinal = List.range (c.childrenOf m).length := by
  rcases mem_build hbuild hm with hmm | ⟨d, hd, hmd⟩
  . rw [childrenOf_measure_build hb hbuild hmm]
    rfl
  . obtain ⟨i, -, hdwf⟩ := hb.def_wf hd
    rw [childrenOf_build hb hbuild hd hmd]
    exact hdwf.ordinals m hmd

theorem hierarchy_of_mem (hb : b.Wf) {i : Nat} {d : HierarchyDef}
    (hi : b.hierarchies[i]? = some d) {x : Member} (hx : x ∈ d.members) : x.hierarchy = i + 1 := by
  obtain ⟨path, hpath, -⟩ := (hb.defs i d hi).onPath x hx
  exact hpath.hierarchy_eq

theorem levelMembers_build (hb : b.Wf) (hbuild : b.build = .ok c) {l : LevelRef}
    {ms : List Member} (h : c.levelMembers l = .ok ms) :
    ms = c.members.filter fun m => m.hierarchy == l.hierarchy && m.depth == l.depth := by
  obtain ⟨-, hlevels, -, -⟩ := build_spec hbuild
  have hms : (c.levels[l.hierarchy]?).bind (·[l.depth]?) = some ms := by
    unfold Cube.levelMembers at h
    split at h
    . rename_i ms' hms'
      obtain rfl := Except.ok.inj h
      exact hms'
    . cases h
  rw [hlevels] at hms
  cases hh : l.hierarchy with
  | zero =>
    -- the one level of measures
    rw [hh] at hms
    obtain ⟨hlt, hget⟩ := List.getElem?_eq_some_iff.mp hms
    have hd0 : l.depth = 0 := by simpa using hlt
    have hms' : ms = c.measures := by rw [← hget, List.getElem_singleton]
    rw [hms', members_build hbuild, List.filter_append, List.filter_eq_self.mpr,
      List.filter_eq_nil_iff.mpr, List.append_nil]
    . intro y hy hpy
      obtain ⟨l', hl', hy⟩ := List.mem_flatten.mp hy
      obtain ⟨d, hd, rfl⟩ := List.mem_map.mp hl'
      obtain ⟨i, hi, -⟩ := hb.def_wf hd
      simp [hb.hierarchy_of_mem hi hy] at hpy
    . intro m hm
      obtain ⟨n, a, o, rfl⟩ := mem_measures_build hbuild hm
      simp [hd0]
  | succ i =>
    rw [hh] at hms
    cases hi : b.hierarchies[i]? with
    | none => simp [hi] at hms
    | some d =>
      have hdms : d.byDepth[l.depth]? = some ms := by simpa [hi] using hms
      obtain ⟨hlt, rfl⟩ := List.getElem?_eq_some_iff.mp hdms
      have hdwf := hb.defs i d hi
      rw [filter_members_build hb hbuild hi (fun m hm => ?_) (fun d' hd' y hy hpy => ?_)]
      . -- the hierarchy's members of other depths fail the test
        rw [HierarchyDef.members, filter_flatten_of_only l.depth, List.getD_eq_getElem?_getD,
          hdms, Option.getD_some, eq_comm, List.filter_eq_self]
        . intro y hy
          rw [← HierarchyDef.atDepth_eq_getElem hlt] at hy
          simp [hb.hierarchy_of_mem hi (HierarchyDef.mem_members.mpr ⟨_, hy⟩),
            hdwf.depth_eq _ y hy]
        . intro j hj hjne
          rw [List.filter_eq_nil_iff]
          intro y hy hpy
          rw [← HierarchyDef.atDepth_eq_getElem hj] at hy
          simp [hdwf.depth_eq j y hy] at hpy
          exact hjne hpy.2
      . obtain ⟨n, a, o, rfl⟩ := mem_measures_build hbuild hm
        simp
      . obtain ⟨i', hi', -⟩ := hb.def_wf hd'
        simp only [hb.hierarchy_of_mem hi' hy, Bool.and_eq_true, beq_iff_eq,
          Nat.add_right_cancel_iff] at hpy
        rw [hpy.1, hi] at hi'
        exact (Option.some.inj hi').symm

theorem walk_of_path (hb : b.Wf) (hbuild : b.build = .ok c) {i : Nat} {d : HierarchyDef}
    (hi : b.hierarchies[i]? = some d) {m : Member} {pm : List String} (hm : m ∈ d.members)
    (hpm : m.OnPath (i + 1) d.name pm) (hpms : ∀ n ∈ pm, SegmentSafe n) :
    ∀ (rest p0 : List String) (x : Member) (fuel : Nat), pm = p0 ++ rest → x ∈ d.members →
      x.OnPath (i + 1) d.name p0 → rest.length < fuel →
      Cube.resolve?.walk c m.uniqueName x fuel = some m := by
  have hdwf := hb.defs i d hi
  have hd : d ∈ b.hierarchies := List.mem_of_getElem? hi
  intro rest
  induction rest with
  | nil =>
    intro p0 x fuel hp hx hpx hfuel
    obtain _ | f := fuel
    . simp at hfuel
    rw [List.append_nil] at hp
    subst hp
    obtain rfl := hdwf.eq_of_uniqueName hx hm (hpx.uniqueName_eq hpm)
    simp [Cube.resolve?.walk]
  | cons n rest ih =>
    intro p0 x fuel hp hx hpx hfuel
    obtain _ | f := fuel
    . simp at hfuel
    have hp0s : ∀ n ∈ p0, SegmentSafe n := fun n hn => hpms n (hp ▸ List.mem_append_left _ hn)
    -- `x` lies strictly above `m`
    have hne : (x.uniqueName == m.uniqueName) = false := by
      rw [beq_eq_false_iff_ne]
      intro hu
      have := congrArg List.length
        (hpx.eq_of_uniqueName hpm hdwf.safe hdwf.safe hp0s hpms hu).2
      simp [hp] at this
    -- the child of `x` on the way to `m`
    obtain ⟨y, hy, hpy⟩ := hdwf.prefix_mem hm hpm
      (p := p0 ++ [n]) ⟨rest, by simp [hp]⟩
    have hys := hdwf.safe_of_onPath hy hpy
    have hfind : (c.childrenOf x).find? (hasSegmentPrefix m.uniqueName ·.uniqueName) = some y := by
      rw [childrenOf_build hb hbuild hd hx]
      refine find?_eq_some_of_unique ((hdwf.mem_childrenOf_iff hx hpx hp0s).mpr ⟨hy, n, hpy⟩)
        ((hpy.hasSegmentPrefix_iff hpm hdwf.safe hdwf.safe hys hpms).mpr ⟨rfl, ⟨rest, by simp [hp]⟩⟩)
        fun z hz hpz => ?_
      obtain ⟨hzd, n', hpz'⟩ := (hdwf.mem_childrenOf_iff hx hpx hp0s).mp hz
      obtain ⟨-, hpre⟩ := (hpz'.hasSegmentPrefix_iff hpm hdwf.safe hdwf.safe
        (hdwf.safe_of_onPath hzd hpz') hpms).mp hpz
      have hn' : n' = n := by
        rw [hp] at hpre
        simpa using hpre
      subst hn'
      exact hdwf.eq_of_uniqueName hzd hy (hpz'.uniqueName_eq hpy)
    rw [Cube.resolve?.walk, hne, if_neg Bool.false_ne_true]
    simp only [hfind]
    exact ih (p0 ++ [n]) y f (by simp [hp]) hy hpy (by simpa using hfuel)

theorem walk_sound (hb : b.Wf) (hbuild : b.build = .ok c) {d : HierarchyDef}
    (hd : d ∈ b.hierarchies) {u : String} :
    ∀ (fuel : Nat) (x m : Member), x ∈ d.members → Cube.resolve?.walk c u x fuel = some m →
      m ∈ d.members ∧ m.uniqueName = u := by
  obtain ⟨i, -, hdwf⟩ := hb.def_wf hd
  intro fuel
  induction fuel with
  | zero => intro x m _ h; simp [Cube.resolve?.walk] at h
  | succ f ih =>
    intro x m hx h
    rw [Cube.resolve?.walk] at h
    split at h
    . -- the member sought
      rename_i hxu
      cases h
      exact ⟨hx, by simpa using hxu⟩
    . -- a step down to one of its children
      split at h
      . rename_i next hnext
        obtain ⟨px, hpx, hpxs⟩ := hdwf.onPath x hx
        rw [childrenOf_build hb hbuild hd hx] at hnext
        have hnextd := ((hdwf.mem_childrenOf_iff hx hpx hpxs).mp
          (List.mem_of_find?_eq_some hnext)).1
        exact ih next m hnextd h
      . cases h

theorem resolve_build (hb : b.Wf) (hbuild : b.build = .ok c) {m : Member} (hm : m ∈ c.members) :
    c.resolve? m.uniqueName = some m := by
  obtain ⟨-, -, -, hroots⟩ := build_spec hbuild
  rcases mem_build hbuild hm with hmm | ⟨d, hd, hmd⟩
  . -- measures are found first
    have hfind : c.measures.find? (·.uniqueName == m.uniqueName) = some m := by
      apply find?_eq_some_of_unique hmm
      . simp
      . intro e he hpe
        exact List.inj_on_of_nodup_map (measures_nodup_build hb hbuild) he hmm (by simpa using hpe)
    simp [Cube.resolve?, hfind]
  . obtain ⟨i, hi, hdwf⟩ := hb.def_wf hd
    obtain ⟨pm, hpm, hpms⟩ := hdwf.onPath m hmd
    have hnone : c.measures.find? (·.uniqueName == m.uniqueName) = none := by
      refine List.find?_eq_none.mpr fun e he hpe => ?_
      obtain ⟨n, a, o, rfl⟩ := mem_measures_build hbuild he
      exact hb.uniqueName_ne_measure hd hmd 0 n a o (beq_iff_eq.mp hpe).symm
    have hall : d.all.OnPath (i + 1) d.name [] := hdwf.all_eq ▸ .all
    -- the `All` member of its hierarchy is the one root whose name starts the member's
    have hroot : (b.hierarchies.map (·.all)).find? (hasSegmentPrefix m.uniqueName ·.uniqueName) =
        some d.all := by
      refine find?_eq_some_of_unique (List.mem_map_of_mem hd)
        ((hall.hasSegmentPrefix_iff hpm hdwf.safe hdwf.safe (by simp) hpms).mpr
          ⟨rfl, List.nil_prefix⟩) fun e he hpe => ?_
      obtain ⟨d', hd', rfl⟩ := List.mem_map.mp he
      obtain ⟨i', -, hd'wf⟩ := hb.def_wf hd'
      have hall' : d'.all.OnPath (i' + 1) d'.name [] := hd'wf.all_eq ▸ .all
      obtain ⟨hname, -⟩ :=
        (hall'.hasSegmentPrefix_iff hpm hd'wf.safe hdwf.safe (by simp) hpms).mp hpe
      rw [List.inj_on_of_nodup_map hb.names hd' hd hname]
    have hwalk := walk_of_path hb hbuild hi hmd hpm hpms pm [] d.all (m.uniqueName.length + 1)
      rfl (hdwf.all_mem) hall (Nat.lt_succ_of_le hpm.length_le)
    simp only [Cube.resolve?, hnone, hroots, hroot, hwalk]

theorem resolve_sound (hb : b.Wf) (hbuild : b.build = .ok c) {u : String} {m : Member}
    (h : c.resolve? u = some m) : m ∈ c.members ∧ m.uniqueName = u := by
  obtain ⟨-, -, -, hroots⟩ := build_spec hbuild
  unfold Cube.resolve? at h
  split at h
  . -- a stored measure
    rename_i m' hm'
    cases h
    refine ⟨?_, by simpa using List.find?_some hm'⟩
    rw [members_build hbuild]
    exact List.mem_append_left _ (List.mem_of_find?_eq_some hm')
  . -- a walk from the `All` member of a hierarchy
    rw [hroots] at h
    dsimp only at h
    split at h
    . cases h
    . rename_i root hroot
      obtain ⟨d, hd, rfl⟩ := List.mem_map.mp (List.mem_of_find?_eq_some hroot)
      obtain ⟨i, -, hdwf⟩ := hb.def_wf hd
      obtain ⟨hmd, hmu⟩ := walk_sound hb hbuild hd _ d.all m hdwf.all_mem h
      exact ⟨mem_build_of_def hbuild hd hmd, hmu⟩

theorem indexConsistent_build (hb : b.Wf) (hbuild : b.build = .ok c) : c.IndexConsistent where
  distinct := distinct_build hb hbuild
  resolve_member _ hm := resolve_build hb hbuild hm
  resolve_name _ _ h := resolve_sound hb hbuild h
  children _ hm := childrenOf_eq_filter hb hbuild hm
  ordinals _ hm := ordinals_build hb hbuild hm
  levels _ _ h := levelMembers_build hb hbuild h

end Built

end Wf

end CubeBuilder

namespace CubeBuilder

/-- The member index of a cube built by any sequence of builder calls is consistent, when no
hierarchy or member name holds the separator `].[`, the hierarchies have distinct names other
than `Measures` and the measures have distinct names. -/
theorem member_index_consistent {calls : List BuilderCall} {c : Cube}
    (hsafe : ∀ call ∈ calls, call.NamesSafe)
    (hh : (calls.filterMap BuilderCall.hierarchyName?).Nodup)
    (hm : (calls.filterMap BuilderCall.measureName?).Nodup)
    (hbuild : (replay calls).build = .ok c) : c.IndexConsistent :=
  (Wf.foldl_apply wf_empty hsafe (by simpa using hh) (by simpa using hm)).indexConsistent_build
    hbuild

theorem member_index_consistent_stores :
    let calls : List BuilderCall := [.addMeasure "Sales" .sum, .addMeasure "Units" .sum,
      .addHierarchy "Store" ["State", "City"], .addMembers 1 ["CA", "SF"],
      .addMembers 1 ["CA", "LA"], .addMembers 1 ["WA", "Seattle"], .setRagged 1 true]
    ∃ c, (replay calls).build = .ok c ∧ c.IndexConsistent := by
  intro calls
  have hok : (replay calls).build.toBool = true := by decide +kernel
  cases hc : (replay calls).build with
  | error e =>
    rw [hc] at hok
    cases hok
  | ok c => exact ⟨c, rfl, member_index_consistent (by decide) (by decide) (by decide) hc⟩

/-- A member name holding the separator spells the unique name of a deeper member. With the
members `a].[b` and `a`, `b` below it, both named `[H].[All].[a].[b]`, the index is not
consistent: a lookup of that name finds the member of depth one, and its children hold the
child created under the other. -/
theorem separator_in_member_name_collides :
    let calls : List BuilderCall := [.addMeasure "S" .sum, .addHierarchy "H" ["L1", "L2", "L3"],
      .addMembers 1 ["a].[b", "x"], .addMembers 1 ["a", "b", "y"]]
    ∃ c, (replay calls).build = .ok c ∧ ¬ c.IndexConsistent ∧
      (c.resolve? "[H].[All].[a].[b]").map (fun m => (m.depth, (c.childrenOf m).map (·.uniqueName))) =
        some (1, ["[H].[All].[a].[b].[x]", "[H].[All].[a].[b].[y]"]) := by
  intro calls
  have hok : (replay calls).build.toOption.map (fun c => (decide (c.members.map (·.uniqueName)).Nodup,
      (c.resolve? "[H].[All].[a].[b]").map (fun m => (m.depth, (c.childrenOf m).map (·.uniqueName))))) =
      some (false, some (1, ["[H].[All].[a].[b].[x]", "[H].[All].[a].[b].[y]"])) := by
    decide +kernel
  cases hc : (replay calls).build with
  | error e =>
    rw [hc] at hok
    cases hok
  | ok c =>
    rw [hc] at hok
    simp only [Except.toOption, Option.map_some, Option.some.injEq, Prod.mk.injEq,
      decide_eq_false_iff_not] at hok
    exact ⟨c, rfl, fun h => hok.1 h.distinct, hok.2⟩

theorem names_collide {calls : List BuilderCall} {names : List String}
    (h : (replay calls).build.toOption.map (·.members.map Member.uniqueName) = some names)
    (hdup : ¬ names.Nodup) :
    ∃ c, (replay calls).build = .ok c ∧ c.members.map Member.uniqueName = names ∧
      ¬ c.IndexConsistent := by
  cases hc : (replay calls).build with
  | error e =>
    rw [hc] at h
    cases h
  | ok c =>
    rw [hc] at h
    simp only [Except.toOption, Option.map_some, Option.some.injEq] at h
    exact ⟨c, rfl, h, fun hi => hdup (h ▸ hi.distinct)⟩

-- the other hypotheses of `member_index_consistent` are needed too: two hierarchies named alike,
-- a hierarchy named `Measures` beside a measure `All`, and two measures named alike each give two
-- members one unique name
example :
    let calls : List BuilderCall :=
      [.addMeasure "S" .sum, .addHierarchy "H" ["L"], .addHierarchy "H" ["L"]]
    ∃ c, (replay calls).build = .ok c ∧
      c.members.map Member.uniqueName = ["[Measures].[S]", "[H].[All]", "[H].[All]"] ∧
      ¬ c.IndexConsistent :=
  names_collide (by decide +kernel) (by decide)

example :
    let calls : List BuilderCall := [.addMeasure "All" .sum, .addHierarchy "Measures" ["L"]]
    ∃ c, (replay calls).build = .ok c ∧
      c.members.map Member.uniqueName = ["[Measures].[All]", "[Measures].[All]"] ∧
      ¬ c.IndexConsistent :=
  names_collide (by decide +kernel) (by decide)

example :
    let calls : List BuilderCall := [.addMeasure "S" .sum, .addMeasure "S" .sum]
    ∃ c, (replay calls).build = .ok c ∧
      c.members.map Member.uniqueName = ["[Measures].[S]", "[Measures].[S]"] ∧
      ¬ c.IndexConsistent :=
  names_collide (by decide +kernel) (by decide)

end CubeBuilder

end OlapCalc
