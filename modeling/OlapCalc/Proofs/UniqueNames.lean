import OlapCalc.Cube.Builder
import Mathlib.Data.List.Infix
import Mathlib.Data.List.Nodup

/-!
Unique names of members, read back.

Unique names are built by concatenation: the `All` member of hierarchy `H` is `[H].[All]` and a
child appends `.[name]` to its parent's. Nothing is escaped, so the text `].[` inside a name
makes two paths spell one name. For names free of that separator a unique name splits back
into its hierarchy name and its path of member names (`Member.OnPath.eq_of_uniqueName`), and
one name starts another, segment by segment, exactly when its path is a prefix of the other's
(`Member.OnPath.hasSegmentPrefix_iff`).
-/

namespace OlapCalc

/-- The text between two segments of a unique name. -/
def separator : List Char := [']', '.', '[']

/-- A name that can stand as one segment of a unique name: it does not contain `].[`. -/
def SegmentSafe (s : String) : Prop := ¬ separator <:+: s.toList

instance (s : String) : Decidable (SegmentSafe s) :=
  inferInstanceAs (Decidable (¬ separator <:+: s.toList))

theorem separator_prefix {a r r' : List Char} (h : separator ++ r = a ++ (separator ++ r')) :
    a = [] ∨ separator <+: a := by
  rcases a with _ | ⟨x, _ | ⟨y, _ | ⟨z, t⟩⟩⟩
  . exact .inl rfl
  all_goals simp only [separator, List.cons_append, List.nil_append, List.cons.injEq] at h
  . simp at h
  . simp at h
  . obtain ⟨rfl, rfl, rfl, -⟩ := h
    exact .inr ⟨t, rfl⟩

theorem eq_of_append_separator {a b r r' : List Char} (ha : ¬ separator <:+: a)
    (hb : ¬ separator <:+: b) (h : a ++ (separator ++ r) = b ++ (separator ++ r')) :
    a = b ∧ r = r' := by
  rcases List.append_eq_append_iff.mp h with ⟨a', rfl, h'⟩ | ⟨b', rfl, h'⟩
  . rcases separator_prefix h' with rfl | hsep
    . simpa using h'
    . exact absurd (hsep.isInfix.trans (List.infix_append_right ..)) hb
  . rcases separator_prefix h' with rfl | hsep
    . simpa using h'.symm
    . exact absurd (hsep.isInfix.trans (List.infix_append_right ..)) ha

theorem separator_prefix_of_closing {c r : List Char} (h : separator ++ r = c ++ [']']) :
    separator <+: c := by
  rcases c with _ | ⟨x, _ | ⟨y, _ | ⟨z, t⟩⟩⟩
  all_goals simp only [separator, List.cons_append, List.nil_append, List.cons.injEq] at h
  . simp at h
  . simp at h
  . simp at h
  . obtain ⟨rfl, rfl, rfl, -⟩ := h
    exact ⟨t, rfl⟩

/-- What follows a segment in a unique name: the closing bracket, or the separator and more. -/
def AfterSegment (l : List Char) : Prop := l = [']'] ∨ ∃ r, l = separator ++ r

theorem eq_of_append_afterSegment {a b l l' : List Char} (ha : ¬ separator <:+: a)
    (hb : ¬ separator <:+: b) (hl : AfterSegment l) (hl' : AfterSegment l')
    (h : a ++ l = b ++ l') : a = b ∧ l = l' := by
  -- a closing bracket on one side and a separator on the other put the separator in a segment
  have mixed : ∀ {a b r : List Char}, ¬ separator <:+: a → a ++ [']'] ≠ b ++ (separator ++ r) := by
    intro a b r ha h
    rcases List.append_eq_append_iff.mp h with ⟨a', rfl, h'⟩ | ⟨c', rfl, h'⟩
    . have hlen := congrArg List.length h'
      simp [separator] at hlen
      omega
    . exact ha ((separator_prefix_of_closing h').isInfix.trans (List.infix_append_right ..))
  rcases hl with rfl | ⟨r, rfl⟩ <;> rcases hl' with rfl | ⟨r', rfl⟩
  . exact ⟨List.append_cancel_right h, rfl⟩
  . exact absurd h (mixed ha)
  . exact absurd h.symm (mixed hb)
  . obtain ⟨rfl, rfl⟩ := eq_of_append_separator ha hb h
    exact ⟨rfl, rfl⟩

/-- The spelling of a path of member names below `All`: each name after a separator. -/
def spellPath (path : List String) : List Char := path.flatMap (separator ++ ·.toList)

@[simp] theorem spellPath_nil : spellPath [] = [] := rfl

@[simp] theorem spellPath_cons (n : String) (path : List String) :
    spellPath (n :: path) = separator ++ (n.toList ++ spellPath path) := by
  simp [spellPath]

@[simp] theorem spellPath_append (p q : List String) :
    spellPath (p ++ q) = spellPath p ++ spellPath q := List.flatMap_append

theorem length_le_spellPath (path : List String) : path.length ≤ (spellPath path).length := by
  induction path with
  | nil => simp
  | cons n path ih =>
    simp [separator]
    omega

theorem afterSegment_spellPath_closing (path : List String) :
    AfterSegment (spellPath path ++ [']']) := by
  cases path with
  | nil => exact .inl rfl
  | cons n path => exact .inr ⟨n.toList ++ (spellPath path ++ [']']), by simp⟩

theorem afterSegment_spellPath_separator (path : List String) (t : List Char) :
    AfterSegment (spellPath path ++ (separator ++ t)) := by
  cases path with
  | nil => exact .inr ⟨t, rfl⟩
  | cons n path => exact .inr ⟨n.toList ++ (spellPath path ++ (separator ++ t)), by simp⟩

section Spelling

variable {p p' : List String}

theorem prefix_of_spellPath {t : List Char} (hp : ∀ n ∈ p, SegmentSafe n)
    (hp' : ∀ n ∈ p', SegmentSafe n) (h : spellPath p ++ (separator ++ t) = spellPath p' ++ [']']) :
    p <+: p' := by
  induction p generalizing p' with
  | nil => exact List.nil_prefix
  | cons n q ih =>
    cases p' with
    | nil =>
      have hlen := congrArg List.length h
      simp [separator] at hlen
    | cons n' q' =>
      simp only [spellPath_cons, List.append_assoc, List.append_cancel_left_eq] at h
      obtain ⟨hn, hq⟩ := eq_of_append_afterSegment (hp n List.mem_cons_self)
        (hp' n' List.mem_cons_self) (afterSegment_spellPath_separator q t)
        (afterSegment_spellPath_closing q') h
      rw [String.toList_inj.mp hn]
      exact List.prefix_cons_inj n' |>.mpr (ih (fun m hm => hp m (List.mem_cons_of_mem n hm))
        (fun m hm => hp' m (List.mem_cons_of_mem n' hm)) hq)

theorem spellPath_inj (hp : ∀ n ∈ p, SegmentSafe n) (hp' : ∀ n ∈ p', SegmentSafe n)
    (h : spellPath p ++ [']'] = spellPath p' ++ [']']) : p = p' := by
  induction p generalizing p' with
  | nil =>
    cases p' with
    | nil => rfl
    | cons n' q' =>
      have hlen := congrArg List.length h
      simp [separator] at hlen
  | cons n q ih =>
    cases p' with
    | nil =>
      have hlen := congrArg List.length h
      simp [separator] at hlen
    | cons n' q' =>
      simp only [spellPath_cons, List.append_assoc, List.append_cancel_left_eq] at h
      obtain ⟨hn, hq⟩ := eq_of_append_afterSegment (hp n List.mem_cons_self)
        (hp' n' List.mem_cons_self) (afterSegment_spellPath_closing q)
        (afterSegment_spellPath_closing q') h
      rw [String.toList_inj.mp hn, ih (fun m hm => hp m (List.mem_cons_of_mem n hm))
        (fun m hm => hp' m (List.mem_cons_of_mem n' hm)) hq]

end Spelling

namespace Member

@[simp] theorem uniqueName_all (k : Nat) (H : String) :
    (Member.all k H).uniqueName = "[" ++ H ++ "].[All]" := rfl
@[simp] theorem uniqueName_child (p : Member) (n : String) (o : Nat) :
    (Member.child p n o).uniqueName = p.uniqueName ++ ".[" ++ n ++ "]" := rfl
@[simp] theorem uniqueName_measure (k : Nat) (n : String) (a : Aggregator) (o : Nat) :
    (Member.measure k n a o).uniqueName = "[Measures].[" ++ n ++ "]" := rfl

/-- Members compare by unique name. -/
@[simp] theorem beq_eq (a b : Member) : (a == b) = (a.uniqueName == b.uniqueName) := rfl

section Accessors

variable (p : Member) (n : String) (o k : Nat) (H : String) (a : Aggregator)

@[simp] theorem hierarchy_child : (Member.child p n o).hierarchy = p.hierarchy := rfl
@[simp] theorem depth_child : (Member.child p n o).depth = p.depth + 1 := rfl
@[simp] theorem parent_child : (Member.child p n o).parent = some p := rfl
@[simp] theorem name_child : (Member.child p n o).name = n := rfl
@[simp] theorem ordinal_child : (Member.child p n o).ordinal = o := rfl
@[simp] theorem hierarchy_all : (Member.all k H).hierarchy = k := rfl
@[simp] theorem depth_all : (Member.all k H).depth = 0 := rfl
@[simp] theorem parent_all : (Member.all k H).parent = none := rfl
@[simp] theorem hierarchy_measure : (Member.measure k n a o).hierarchy = k := rfl
@[simp] theorem depth_measure : (Member.measure k n a o).depth = 0 := rfl
@[simp] theorem parent_measure : (Member.measure k n a o).parent = none := rfl

end Accessors

theorem uniqueName_measure_toList (k : Nat) (n : String) (a : Aggregator) (o : Nat) :
    (Member.measure k n a o).uniqueName.toList =
      '[' :: ("Measures".toList ++ (separator ++ (n.toList ++ [']']))) := by
  simp [String.toList_append, separator]

/-- `m` is the member the builder creates for `path` below the `All` member of hierarchy `k`
named `H`: the `All` member itself, or a child, with some ordinal, of the member of the path
without its last name. -/
inductive OnPath (k : Nat) (H : String) : Member → List String → Prop
  | all : OnPath k H (Member.all k H) []
  | child {p : Member} {path : List String} (n : String) (o : Nat) :
      OnPath k H p path → OnPath k H (Member.child p n o) (path ++ [n])

namespace OnPath

variable {k : Nat} {H : String} {m : Member} {path : List String}

theorem uniqueName_toList (h : m.OnPath k H path) :
    m.uniqueName.toList =
      '[' :: (H.toList ++ (separator ++ ("All".toList ++ spellPath path ++ [']']))) := by
  induction h with
  | all => simp [String.toList_append, separator]
  | child n o _ ih => simp [String.toList_append, ih, spellPath, separator]

theorem length_le (h : m.OnPath k H path) : path.length ≤ m.uniqueName.length := by
  rw [← String.length_toList, h.uniqueName_toList]
  have := length_le_spellPath path
  simp
  omega

theorem uniqueName_toList_open (h : m.OnPath k H path) (t : List Char) :
    (m.uniqueName ++ ".[").toList ++ t =
      '[' :: (H.toList ++ (separator ++ ("All".toList ++ (spellPath path ++ (separator ++ t))))) := by
  rw [String.toList_append, h.uniqueName_toList]
  simp [separator]

theorem hierarchy_eq (h : m.OnPath k H path) : m.hierarchy = k := by
  induction h with
  | all => rfl
  | child n o _ ih => simpa using ih

theorem depth_eq (h : m.OnPath k H path) : m.depth = path.length := by
  induction h with
  | all => rfl
  | child n o _ ih => simp [ih]

theorem eq_all (h : m.OnPath k H []) : m = Member.all k H := by
  generalize hq : ([] : List String) = q at h
  cases h with
  | all => rfl
  | child n o _ => simp at hq

theorem of_append {n : String} (h : m.OnPath k H (path ++ [n])) :
    ∃ p o, m = Member.child p n o ∧ p.OnPath k H path := by
  generalize hq : path ++ [n] = q at h
  cases h with
  | all => simp at hq
  | child n' o hp =>
    obtain ⟨rfl, hn⟩ := List.append_inj' hq rfl
    cases hn
    exact ⟨_, o, rfl, hp⟩

theorem uniqueName_eq {m' : Member} {k' : Nat} (h : m.OnPath k H path) (h' : m'.OnPath k' H path) :
    m.uniqueName = m'.uniqueName := by
  rw [← String.toList_inj, h.uniqueName_toList, h'.uniqueName_toList]

theorem depth_of_parent (h : m.OnPath k H path) {q : Member} (hq : m.parent = some q) :
    m.depth = q.depth + 1 := by
  cases h with
  | all => cases hq
  | child n o _ => cases hq; rfl

theorem path_eq {k' : Nat} {H' : String} {path' : List String} (h : m.OnPath k H path)
    (h' : m.OnPath k' H' path') : path = path' := by
  induction h generalizing path' with
  | all =>
    have := h'.depth_eq
    simp only [depth_all] at this
    exact (List.eq_nil_of_length_eq_zero this.symm).symm
  | child n o _ ih =>
    generalize hq : Member.child _ n o = q at h'
    cases h' with
    | all => simpa using congrArg Member.depth hq
    | child n' o' hp' =>
      have hparent := congrArg Member.parent hq
      have hname := congrArg Member.name hq
      simp only [parent_child, Option.some.injEq, name_child] at hparent hname
      subst hparent hname
      rw [ih hp']

section Names

variable {m' : Member} {k' : Nat} {H' : String} {path' : List String}

/-- On paths of separator-free names, the unique name determines the hierarchy name and the
path. -/
theorem eq_of_uniqueName (h : m.OnPath k H path) (h' : m'.OnPath k' H' path')
    (hH : SegmentSafe H) (hH' : SegmentSafe H') (hp : ∀ n ∈ path, SegmentSafe n)
    (hp' : ∀ n ∈ path', SegmentSafe n) (hu : m.uniqueName = m'.uniqueName) :
    H = H' ∧ path = path' := by
  have hl := congrArg String.toList hu
  rw [h.uniqueName_toList, h'.uniqueName_toList, List.cons.injEq] at hl
  obtain ⟨hHl, hrest⟩ := eq_of_append_separator hH hH' hl.2
  rw [List.append_assoc, List.append_assoc, List.append_cancel_left_eq] at hrest
  exact ⟨String.toList_inj.mp hHl, spellPath_inj hp hp' hrest⟩

/-- The test of the lookup walk: a member's unique name continues another's segment by segment
exactly when the other lies under the same hierarchy name at a prefix of its path. -/
theorem hasSegmentPrefix_iff (h : m.OnPath k H path) (h' : m'.OnPath k' H' path')
    (hH : SegmentSafe H) (hH' : SegmentSafe H') (hp : ∀ n ∈ path, SegmentSafe n)
    (hp' : ∀ n ∈ path', SegmentSafe n) :
    hasSegmentPrefix m'.uniqueName m.uniqueName = true ↔ H = H' ∧ path <+: path' := by
  simp only [hasSegmentPrefix, Bool.or_eq_true, beq_iff_eq, String.startsWith_string_iff]
  constructor
  . rintro (hu | ⟨t, ht⟩)
    . obtain ⟨rfl, rfl⟩ := h.eq_of_uniqueName h' hH hH' hp hp' hu.symm
      exact ⟨rfl, List.prefix_refl _⟩
    . rw [h.uniqueName_toList_open, h'.uniqueName_toList, List.cons.injEq] at ht
      obtain ⟨hHl, hrest⟩ := eq_of_append_separator hH hH' ht.2
      rw [List.append_assoc, List.append_cancel_left_eq] at hrest
      exact ⟨String.toList_inj.mp hHl, prefix_of_spellPath hp hp' hrest⟩
  . rintro ⟨rfl, rest, rfl⟩
    cases rest with
    | nil =>
      left
      rw [← String.toList_inj, h'.uniqueName_toList, h.uniqueName_toList, List.append_nil]
    | cons n rest =>
      right
      refine ⟨n.toList ++ (spellPath rest ++ [']']), ?_⟩
      rw [h.uniqueName_toList_open, h'.uniqueName_toList]
      simp

theorem uniqueName_ne_measure (h : m.OnPath k H path) (hH : SegmentSafe H) (hne : H ≠ "Measures")
    (j : Nat) (n : String) (a : Aggregator) (o : Nat) :
    m.uniqueName ≠ (Member.measure j n a o).uniqueName := by
  intro hu
  have hl := congrArg String.toList hu
  rw [h.uniqueName_toList, uniqueName_measure_toList, List.cons.injEq] at hl
  have hM : SegmentSafe "Measures" := by decide
  exact hne (String.toList_inj.mp (eq_of_append_separator hH hM hl.2).1)

end Names

end OnPath

end Member

section AssocList

variable {β : Type}

theorem find?_assocSet (xs : List (String × β)) (key k : String) (v : β) :
    ((assocSet xs key v).find? (·.1 == k)).map (·.2) =
      if key = k then some v else (xs.find? (·.1 == k)).map (·.2) := by
  unfold assocSet
  split
  . next hany =>
    -- every entry under the key is replaced, and the keys stay where they were
    rw [List.find?_map]
    have hkeys : ((fun e : String × β => e.1 == k) ∘
        fun e : String × β => if e.1 == key then (e.1, v) else (e.1, e.2)) = (·.1 == k) := by
      funext e
      simp only [Function.comp]
      split <;> rfl
    simp only [hkeys, Option.map_map]
    by_cases hkey : key = k
    . subst hkey
      obtain ⟨e, he⟩ := Option.isSome_iff_exists.mp (List.find?_isSome.mpr (List.any_eq_true.mp hany))
      have hek : e.1 = key := by simpa using List.find?_some (p := fun e : String × β => e.1 == key) he
      simp [he, hek]
    . cases he : xs.find? (·.1 == k) with
      | none => simp [hkey]
      | some e =>
        have hek : e.1 = k := by simpa using List.find?_some (p := fun e : String × β => e.1 == k) he
        have hne : e.1 ≠ key := hek ▸ Ne.symm hkey
        simp [hkey, hne]
  . next hany =>
    simp only [Bool.not_eq_true, List.any_eq_false, beq_iff_eq] at hany
    by_cases hkey : key = k
    . subst hkey
      have hnone : xs.find? (·.1 == key) = none := by simpa using hany
      simp [List.find?_append, hnone]
    . simp [List.find?_append, hkey]

theorem mem_keys_assocSet {xs : List (String × β)} {key u : String} {v : β}
    (h : u ∈ (assocSet xs key v).map (·.1)) : u ∈ xs.map (·.1) ∨ u = key := by
  unfold assocSet at h
  split at h
  . left
    simp only [List.map_map, List.mem_map, Function.comp_def] at h ⊢
    obtain ⟨⟨k', w⟩, hmem, rfl⟩ := h
    refine ⟨(k', w), hmem, ?_⟩
    simp only
    split <;> rfl
  . simpa using h

theorem nodup_keys_assocSet {xs : List (String × β)} (h : (xs.map (·.1)).Nodup) (key : String)
    (v : β) : ((assocSet xs key v).map (·.1)).Nodup := by
  unfold assocSet
  split
  . -- the keys stay as they were
    rw [List.map_map]
    convert h using 1
    apply List.map_congr_left
    intro e _
    simp only [Function.comp]
    split <;> rfl
  . next hany =>
    simp only [Bool.not_eq_true, List.any_eq_false, beq_iff_eq] at hany
    rw [List.map_append, List.map_singleton]
    refine List.nodup_append.mpr ⟨h, List.nodup_singleton _, fun a ha c hc => ?_⟩
    rw [List.mem_singleton.mp hc]
    obtain ⟨e, he, rfl⟩ := List.mem_map.mp ha
    exact hany e he

theorem assocSet_of_not_mem {xs : List (String × β)} {key : String} (h : key ∉ xs.map (·.1))
    (v : β) : assocSet xs key v = xs ++ [(key, v)] := by
  unfold assocSet
  rw [if_neg]
  simp only [Bool.not_eq_true, List.any_eq_false, beq_iff_eq]
  exact fun e he hk => h (List.mem_map.mpr ⟨e, he, hk⟩)

theorem foldl_assocSet_of_nodup : ∀ (l acc : List (String × β)), ((acc ++ l).map (·.1)).Nodup →
    l.foldl (fun acc e => assocSet acc e.1 e.2) acc = acc ++ l
  | [], acc, _ => by simp
  | e :: l, acc, h => by
    have hfresh : e.1 ∉ acc.map (·.1) := by
      rw [List.map_append, List.map_cons, List.nodup_append] at h
      exact fun he => h.2.2 _ he _ List.mem_cons_self rfl
    rw [List.foldl_cons, assocSet_of_not_mem hfresh, foldl_assocSet_of_nodup l (acc ++ [e])]
    . simp
    . simpa using h

end AssocList

end OlapCalc
