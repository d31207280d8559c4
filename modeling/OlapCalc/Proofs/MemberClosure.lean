import OlapCalc.Proofs.CompileTyping
import OlapCalc.Proofs.CubeBuilding

/-!
The members an expression names, and that compiling keeps to them.

A member carries its parent and, when it is calculated, its formula; an expression names members
and hierarchies, and a hierarchy names its default member. The members reachable from a member or
an expression along these links are its `subterms`, a finite list closed under taking subterms
again (`Member.subterms_subset`).

A compiled node names members in three places: its member constants, its constant values, and
the stored and calculated members its native sites enumerate (`Node.members`). Compiling never
invents one: every member a compiled node names is named by the expression
(`FunctionTable.compile_members`). The proof runs over the compiler's mutual functions one fuel
level at a time (`Compiler.NamesAt`), as shape inference does.
-/

namespace Except.Ensures

theorem trivial {ε α : Type} {x : Except ε α} : Ensures (fun _ => True) (fun _ => True) x := by
  cases x <;> exact True.intro

end Except.Ensures

namespace OlapCalc

mutual

/-- A member, its ancestors and the members its formula names, transitively. -/
def Member.subterms : Member → List Member
  | m@(.mk _ _ _ _ _ parent _ kind) =>
    m :: (Member.parentSubterms parent ++ MemberKind.subterms kind)

/-- The subterms of a parent, if there is one. -/
def Member.parentSubterms : Option Member → List Member
  | none => []
  | some p => Member.subterms p

/-- The subterms of a calculated member's formula. -/
def MemberKind.subterms : MemberKind → List Member
  | .calculated e _ => Exp.subterms e
  | _ => []

/-- The subterms of a hierarchy's default member. -/
def Hierarchy.subterms : Hierarchy → List Member
  | .mk _ _ _ d _ _ => Member.subterms d

/-- The members an expression names, with their subterms. -/
def Exp.subterms : Exp → List Member
  | .member m => Member.subterms m
  | .hierarchy h => Hierarchy.subterms h
  | .call _ _ args => Exp.subtermsAll args
  | _ => []

/-- The subterms of a list of expressions. -/
def Exp.subtermsAll : List Exp → List Member
  | [] => []
  | a :: rest => Exp.subterms a ++ Exp.subtermsAll rest

end

theorem Member.mem_subterms_self (m : Member) : m ∈ m.subterms := by
  cases m
  simp [Member.subterms]

theorem Member.parent_mem_subterms {m p : Member} (h : m.parent = some p) : p ∈ m.subterms := by
  obtain ⟨_, _, _, _, _, parent, _, _⟩ := m
  cases h
  simp [Member.subterms, Member.parentSubterms, Member.mem_subterms_self]

theorem Member.formula_subterms {m : Member} {e : Exp} {o : Int} (h : m.formula = some (e, o)) :
    e.subterms ⊆ m.subterms := by
  obtain ⟨_, _, _, _, _, _, _, kind⟩ := m
  cases kind <;> simp only [Member.formula, Member.kind, reduceCtorEq, Option.some.injEq,
    Prod.mk.injEq] at h
  obtain ⟨rfl, rfl⟩ := h
  intro x hx
  simp [Member.subterms, MemberKind.subterms, hx]

@[simp] theorem Hierarchy.defaultMember_mem_subterms (h : Hierarchy) :
    h.defaultMember ∈ h.subterms := by
  cases h
  simp [Hierarchy.subterms, Hierarchy.defaultMember, Member.mem_subterms_self]

mutual

/-- Subterms are closed under taking subterms. -/
theorem Member.subterms_subset : ∀ {m x : Member}, x ∈ m.subterms → x.subterms ⊆ m.subterms
  | .mk _ _ _ _ _ p _ k, x, hx => by
    simp only [Member.subterms, List.mem_cons, List.mem_append] at hx
    rcases hx with rfl | hx | hx
    . exact List.Subset.refl _
    . exact List.Subset.trans (Member.parentSubterms_subset hx) fun y hy => by
        simp only [Member.subterms, List.mem_cons, List.mem_append]
        exact Or.inr (Or.inl hy)
    . exact List.Subset.trans (MemberKind.subterms_subset hx) fun y hy => by
        simp only [Member.subterms, List.mem_cons, List.mem_append]
        exact Or.inr (Or.inr hy)

theorem Member.parentSubterms_subset : ∀ {p : Option Member} {x : Member},
    x ∈ Member.parentSubterms p → x.subterms ⊆ Member.parentSubterms p
  | some _, _, hx => Member.subterms_subset hx

theorem MemberKind.subterms_subset : ∀ {k : MemberKind} {x : Member},
    x ∈ k.subterms → x.subterms ⊆ k.subterms
  | .calculated _ _, _, hx => Exp.subterms_subset hx

theorem Hierarchy.subterms_subset : ∀ {h : Hierarchy} {x : Member},
    x ∈ h.subterms → x.subterms ⊆ h.subterms
  | .mk _ _ _ _ _ _, _, hx => Member.subterms_subset hx

theorem Exp.subterms_subset : ∀ {e : Exp} {x : Member}, x ∈ e.subterms → x.subterms ⊆ e.subterms
  | .member _, _, hx => Member.subterms_subset hx
  | .hierarchy _, _, hx => Hierarchy.subterms_subset hx
  | .call _ _ _, _, hx => Exp.subtermsAll_subset hx

theorem Exp.subtermsAll_subset : ∀ {args : List Exp} {x : Member},
    x ∈ Exp.subtermsAll args → x.subterms ⊆ Exp.subtermsAll args
  | _ :: _, _, hx => by
    simp only [Exp.subtermsAll, List.mem_append] at hx ⊢
    rcases hx with hx | hx
    . exact List.Subset.trans (Exp.subterms_subset hx) (List.subset_append_left _ _)
    . exact List.Subset.trans (Exp.subtermsAll_subset hx) (List.subset_append_right _ _)

end

theorem Exp.subterms_subset_subtermsAll {a : Exp} :
    ∀ {args : List Exp}, a ∈ args → a.subterms ⊆ Exp.subtermsAll args
  | b :: rest, h => by
    rcases List.mem_cons.mp h with rfl | h
    . exact List.subset_append_left _ _
    . exact List.Subset.trans (subterms_subset_subtermsAll h) (List.subset_append_right _ _)

/-- The members a native operand lists itself: its calculated members and the stored members it
enumerates (a level's or a member's children come from the cube). -/
def ArgSource.members (s : ArgSource) : List Member :=
  s.calculated ++ match s.stored with
    | some (.members ms) => ms
    | _ => []

namespace NativeSite

theorem enumerated_subterms {whole : Exp} {items : List Exp} {src : ArgSource}
    (h : enumerated whole items = .ok src) : src.members ⊆ Exp.subtermsAll items := by
  unfold enumerated at h
  obtain ⟨⟨hier, stored, calculated⟩, hfold, hrest⟩ := bind_eq_ok.mp h
  clear h
  -- each step of the fold files the member it reads as stored or as calculated
  obtain ⟨hs, hc⟩ : stored ⊆ Exp.subtermsAll items ∧ calculated ⊆ Exp.subtermsAll items := by
    refine foldlM_invariant (fun acc : Option Nat × List Member × List Member =>
      acc.2.1 ⊆ Exp.subtermsAll items ∧ acc.2.2 ⊆ Exp.subtermsAll items)
      (fun acc item hitem acc' hacc hstep => ?_) ⟨List.nil_subset _, List.nil_subset _⟩ hfold
    obtain ⟨hier₀, stored₀, calc₀⟩ := acc
    obtain ⟨hs, hc⟩ := hacc
    cases item with
    | member m =>
      have hm : [m] ⊆ Exp.subtermsAll items := List.cons_subset.mpr
        ⟨Exp.subterms_subset_subtermsAll hitem (Member.mem_subterms_self m), List.nil_subset _⟩
      -- the member is filed as calculated or as stored
      have hfile : ∀ hier : Option Nat, (if m.isCalculated then pure (hier, stored₀, calc₀ ++ [m])
          else pure (hier, stored₀ ++ [m], calc₀) : Except String _) = .ok acc' →
          acc'.2.1 ⊆ Exp.subtermsAll items ∧ acc'.2.2 ⊆ Exp.subtermsAll items := fun hier h => by
        split at h
        . cases h
          exact ⟨hs, List.append_subset.mpr ⟨hc, hm⟩⟩
        . cases h
          exact ⟨List.append_subset.mpr ⟨hs, hm⟩, hc⟩
      simp only at hstep
      -- a measure is refused, and so is a member of another hierarchy than those before it
      split at hstep
      . cases hstep
      . split at hstep
        . exact hfile _ hstep
        . split at hstep
          . cases hstep
          . exact hfile _ hstep
    | _ => cases hstep
  -- the stored members are listed only when there are some
  have hlisted : ∀ h, ArgSource.members ⟨h, if stored.isEmpty then none else some (.members stored),
      calculated⟩ ⊆ Exp.subtermsAll items := fun h => by
    refine List.append_subset.mpr ⟨hc, ?_⟩
    by_cases hempty : stored.isEmpty = true
    . rw [if_pos hempty]
      exact List.nil_subset _
    . rw [if_neg hempty]
      exact hs
  simp only at hrest
  -- stored members of several levels are refused, and so is an enumeration with no hierarchy
  split at hrest
  case' h_1 =>
    split at hrest
    case' isTrue => cases hrest
  all_goals
    split at hrest
    . cases hrest
      exact hlisted _
    . cases hrest

theorem subtermsAll_singleton (e : Exp) : Exp.subtermsAll [e] = e.subterms := by
  simp [Exp.subtermsAll]

theorem simpleSource_subterms : ∀ {e : Exp} {src : ArgSource},
    simpleSource e = .ok src → src.members ⊆ e.subterms
  | e, src, h => by
    unfold simpleSource at h
    split at h
    . split at h
      . cases h
        simp [ArgSource.members]
      . cases h
    . split at h
      . cases h
        simp [ArgSource.members]
      . cases h
    . next items =>
      unfold bracedSource at h
      split at h
      . next single =>
        split at h
        . exact List.Subset.trans (simpleSource_subterms h) (by simp [Exp.subterms, subtermsAll_singleton])
        . exact List.Subset.trans (enumerated_subterms h) (by simp [Exp.subterms])
      . exact enumerated_subterms h
    . exact List.Subset.trans (enumerated_subterms h) (by simp [subtermsAll_singleton])
    . cases h

mutual

theorem flatten_subterms : ∀ {e : Exp} {srcs : List ArgSource},
    flatten e = .ok srcs → ∀ s ∈ srcs, s.members ⊆ e.subterms
  | e, srcs, h => by
    unfold flatten at h
    split at h
    . split at h
      . exact flattenAll_subterms h
      . obtain ⟨src, hsrc, h⟩ := bind_eq_ok.mp h
        cases h
        simpa using simpleSource_subterms hsrc
    . obtain ⟨src, hsrc, h⟩ := bind_eq_ok.mp h
      cases h
      simpa using simpleSource_subterms hsrc

theorem flattenAll_subterms : ∀ {args : List Exp} {srcs : List ArgSource},
    flattenAll args = .ok srcs → ∀ s ∈ srcs, s.members ⊆ Exp.subtermsAll args
  | [], srcs, h => by
    cases h
    simp
  | a :: rest, srcs, h => by
    unfold flattenAll at h
    obtain ⟨first, hfirst, h⟩ := bind_eq_ok.mp h
    obtain ⟨others, hothers, h⟩ := bind_eq_ok.mp h
    cases h
    intro s hs
    rcases List.mem_append.mp hs with hs | hs
    . exact List.Subset.trans (flatten_subterms hfirst s hs) (List.subset_append_left _ _)
    . exact List.Subset.trans (flattenAll_subterms hothers s hs) (List.subset_append_right _ _)

end

theorem memberSources_subterms {e : Exp} {srcs : List ArgSource} {kind : OperandKind}
    (h : memberSources e = .ok (srcs, kind)) : ∀ s ∈ srcs, s.members ⊆ e.subterms := by
  unfold memberSources at h
  split at h
  . split at h
    . obtain ⟨sources, hsources, h⟩ := bind_eq_ok.mp h
      cases h
      exact flattenAll_subterms (flattenAll_of_crossJoinSources hsources)
    . split at h
      . obtain ⟨sources, hsources, h⟩ := bind_eq_ok.mp h
        cases h
        exact flattenAll_subterms (flattenAll_of_crossJoinSources hsources)
      . obtain ⟨src, hsrc, h⟩ := bind_eq_ok.mp h
        cases h
        simpa using simpleSource_subterms hsrc
  . obtain ⟨src, hsrc, h⟩ := bind_eq_ok.mp h
    cases h
    simpa using simpleSource_subterms hsrc

/-- The members a native site's plan enumerates: its operands' calculated members and their
enumerated stored members. -/
def members (site : NativeSite) : List Member :=
  match site.plan with
  | .ok plan => plan.sources.flatMap ArgSource.members
  | .error _ => []

theorem members_subset {site : NativeSite} {X : List Member}
    (h : ∀ plan, site.plan = .ok plan → ∀ s ∈ plan.sources, s.members ⊆ X) : site.members ⊆ X := by
  unfold members
  split
  . next plan hplan =>
    intro m hm
    obtain ⟨s, hs, hm⟩ := List.mem_flatMap.mp hm
    exact h plan hplan s hs hm
  . exact List.nil_subset _

theorem ofCrossJoin_subterms (e : Exp) (args : List Exp) :
    (ofCrossJoin e args).members ⊆ Exp.subtermsAll args := by
  refine members_subset fun plan hplan => ?_
  simp only [ofCrossJoin] at hplan
  obtain ⟨srcs, hsrcs, hplan⟩ := map_eq_ok.mp hplan
  cases hplan
  exact flattenAll_subterms (flattenAll_of_crossJoinSources hsrcs)

theorem ofTopCount_subterms (e set count : Exp) (measure : Option Exp) :
    (ofTopCount e set count measure).members ⊆ set.subterms :=
  members_subset fun _ hplan =>
    have ⟨_, hsrcs⟩ := Compiler.ofTopCount_plan hplan
    memberSources_subterms hsrcs

theorem ofFilter_subterms (e set condition : Exp) :
    (ofFilter e set condition).members ⊆ set.subterms :=
  members_subset fun _ hplan =>
    have ⟨_, hsrcs⟩ := Compiler.ofFilter_plan hplan
    memberSources_subterms hsrcs

end NativeSite

namespace Value

/-- The members a value holds: a member, a tuple's members, the members of a set's tuples. -/
def members : Value → List Member
  | .member m => [m]
  | .tuple t => t
  | .set ts => ts.flatten
  | _ => []

@[simp] theorem members_ofOptFloat (x : Option Float) : (Value.ofOptFloat x).members = [] := by
  cases x <;> rfl

theorem members_of_conforms_boolean {v : Value} (h : v.Conforms .boolean) : v.members = [] := by
  -- only members, tuples and sets hold members, and none of them is a boolean
  cases v with
  | member _ | tuple _ | set _ => exact h.elim
  | _ => rfl

end Value

@[simp] theorem Literal.members_value (l : Literal) : l.value.members = [] := by
  cases l <;> rfl

mutual

/-- The members a node names: member constants, members held by constant values, and the members
its native sites enumerate. -/
def Node.members : Node → List Member
  | .const v _ => v.members
  | .memberConst m => [m]
  | .currentMember _ | .levelMembers _ | .slicer _ => []
  | .parent n | .memberName n | .memberToTuple n | .negate n | .not n | .isEmpty n
  | .format n _ | .coerce n _ | .truncate n | .toText n | .memberValue n | .children n
  | .singleton n => Node.members n
  | .tuple ns | .coalesce ns _ => Node.membersAll ns
  | .arith _ l r | .compare _ l r | .logical _ l r | .formatWith l r =>
    Node.members l ++ Node.members r
  | .iif c t e _ => Node.members c ++ Node.members t ++ Node.members e
  | .enumerate items _ => Node.itemMembers items
  | .crossJoin args site _ => Node.argsMembers args ++ site.members
  | .filter set c site => Node.argMembers set ++ Node.members c ++ site.members
  | .topCount set k m site _ =>
    Node.argMembers set ++ Node.members k ++ Node.optMembers m ++ (site.map NativeSite.members).getD []
  | .head set k => Node.argMembers set ++ Node.optMembers k
  | .order set key _ => Node.argMembers set ++ Node.members key
  | .generate source each _ => Node.argMembers source ++ Node.argMembers each
  | .sum set v | .avg set v | .extremum set v _ | .dispersion set v _ _ | .aggregate set v =>
    Node.argMembers set ++ Node.optMembers v
  | .percentile set v p => Node.argMembers set ++ Node.optMembers v ++ Node.optMembers p
  | .regression _ point set y x =>
    Node.optMembers point ++ Node.argMembers set ++ Node.members y ++ Node.optMembers x
  | .pairwise _ set x y => Node.argMembers set ++ Node.members x ++ Node.optMembers y
  | .count set _ => Node.argMembers set

def Node.membersAll : List Node → List Member
  | [] => []
  | n :: rest => Node.members n ++ Node.membersAll rest

def Node.optMembers : Option Node → List Member
  | none => []
  | some n => Node.members n

def Node.argMembers : SetArg → List Member
  | .mk n _ => Node.members n

def Node.argsMembers : List SetArg → List Member
  | [] => []
  | a :: rest => Node.argMembers a ++ Node.argsMembers rest

def Node.itemMembers : List SetItem → List Member
  | [] => []
  | .single n :: rest => Node.members n ++ Node.itemMembers rest
  | .splice a :: rest => Node.argMembers a ++ Node.itemMembers rest

end

theorem Node.itemMembers_cons (it : SetItem) (items : List SetItem) :
    Node.itemMembers (it :: items) = Node.itemMembers [it] ++ Node.itemMembers items := by
  cases it <;> simp [Node.itemMembers]

theorem Exp.subterms_getElem? {args : List Exp} {i : Nat} {a : Exp} (h : args[i]? = some a) :
    a.subterms ⊆ Exp.subtermsAll args :=
  Exp.subterms_subset_subtermsAll (List.mem_of_getElem? h)

theorem Exp.subterms_getD (args : List Exp) (i : Nat) :
    (args.getD i default).subterms ⊆ Exp.subtermsAll args := by
  rw [List.getD_eq_getElem?_getD]
  cases h : args[i]? with
  | none => exact List.nil_subset _
  | some a => exact Exp.subterms_getElem? h

namespace Compiler

open Except (Ensures)

variable {t : FunctionTable}

theorem convert_members (e : Exp) (n : Node) (c : Category) :
    Ensures (·.members ⊆ n.members) (fun _ => True) (convert e n c) := by
  unfold convert
  dsimp only
  split
  . exact Ensures.pure (List.Subset.refl _)
  split
  . exact Ensures.pure (List.Subset.refl _)
  split
  case h_30 =>
    -- a hierarchy read as a member is its current member, which names none
    split
    . exact Ensures.pure (List.nil_subset _)
    . exact Ensures.throw True.intro
  case h_31 => exact Ensures.throw True.intro
  -- every other conversion wraps the node
  all_goals exact Ensures.pure (List.Subset.refl _)

/-- At level `k`, every node the compiler builds names only members its expressions name. -/
structure NamesAt (t : FunctionTable) (k : Nat) : Prop where
  natural : ∀ e, Ensures (·.members ⊆ e.subterms) (fun _ => True) (natural t k e)
  compile : ∀ e c, Ensures (·.members ⊆ e.subterms) (fun _ => True) (compile t k e c)
  compileSet : ∀ e accepts,
    Ensures (Node.argMembers · ⊆ e.subterms) (fun _ => True) (compileSet t k e accepts)
  argument : ∀ spec args i,
    Ensures (·.members ⊆ Exp.subtermsAll args) (fun _ => True) (argument t k spec args i)
  optArgument : ∀ spec args i,
    Ensures (Node.optMembers · ⊆ Exp.subtermsAll args) (fun _ => True) (optArgument t k spec args i)
  setArgument : ∀ args i accepts,
    Ensures (Node.argMembers · ⊆ Exp.subtermsAll args) (fun _ => True) (setArgument t k args i accepts)
  enumItems : ∀ whole items arity,
    Ensures (Node.itemMembers ·.1 ⊆ Exp.subtermsAll items) (fun _ => True)
      (enumItems t k whole items arity)
  allArguments : ∀ spec args i,
    Ensures (Node.membersAll · ⊆ Exp.subtermsAll args) (fun _ => True) (allArguments t k spec args i)
  allSets : ∀ args, Ensures (Node.argsMembers · ⊆ Exp.subtermsAll args) (fun _ => True) (allSets t k args)
  build : ∀ spec e name args,
    Ensures (·.members ⊆ Exp.subtermsAll args) (fun _ => True) (build t k spec e name args)

namespace NamesAt

variable {k : Nat}

theorem zero (t : FunctionTable) : NamesAt t 0 := by
  refine ⟨fun _ => ?_, fun _ _ => ?_, fun _ _ => ?_, fun _ _ _ => ?_, fun _ _ _ => ?_,
    fun _ _ _ => ?_, fun _ _ _ => ?_, fun _ _ _ => ?_, fun _ => ?_, fun _ _ _ _ => ?_⟩
  all_goals simp only [Compiler.natural, Compiler.compile, Compiler.compileSet, Compiler.argument,
    Compiler.optArgument, Compiler.setArgument, Compiler.enumItems, Compiler.allArguments,
    Compiler.allSets, Compiler.build]
  all_goals exact Ensures.throw True.intro

theorem natural_succ (ih : NamesAt t k) (e : Exp) :
    Ensures (·.members ⊆ e.subterms) (fun _ => True) (Compiler.natural t (k + 1) e) := by
  cases e with
  | call name style args =>
    simp only [Compiler.natural]
    exact Ensures.bind Ensures.trivial fun _ _ => Ensures.bind Ensures.trivial fun spec _ =>
      ih.build spec _ name args
  | member m =>
    simp only [Compiler.natural]
    exact Ensures.pure (by simp [Node.members, Exp.subterms, Member.mem_subterms_self])
  | literal l =>
    simp only [Compiler.natural]
    exact Ensures.pure (by simp [Node.members])
  | _ =>
    simp only [Compiler.natural]
    exact Ensures.pure (List.nil_subset _)

theorem compile_succ (ih : NamesAt t k) (e : Exp) (c : Category) :
    Ensures (·.members ⊆ e.subterms) (fun _ => True) (Compiler.compile t (k + 1) e c) := by
  simp only [Compiler.compile]
  exact Ensures.bind (ih.natural e) fun n hn => (convert_members e n c).mono fun _ h => List.Subset.trans h hn

theorem compileSet_succ (ih : NamesAt t k) (e : Exp) (accepts : List ResultStyle) :
    Ensures (Node.argMembers · ⊆ e.subterms) (fun _ => True)
      (Compiler.compileSet t (k + 1) e accepts) := by
  simp only [Compiler.compileSet]
  refine Ensures.bind (ih.compile e .set) fun n hn => ?_
  split
  . exact Ensures.pure hn
  . exact Ensures.throw True.intro

theorem argument_succ (ih : NamesAt t k) (spec : FunctionSpec) (args : List Exp) (i : Nat) :
    Ensures (·.members ⊆ Exp.subtermsAll args) (fun _ => True)
      (Compiler.argument t (k + 1) spec args i) := by
  simp only [Compiler.argument]
  split
  . next a h => exact (ih.compile a _).mono fun _ hn => List.Subset.trans hn (Exp.subterms_getElem? h)
  . exact Ensures.throw True.intro

theorem optArgument_succ (ih : NamesAt t k) (spec : FunctionSpec) (args : List Exp) (i : Nat) :
    Ensures (Node.optMembers · ⊆ Exp.subtermsAll args) (fun _ => True)
      (Compiler.optArgument t (k + 1) spec args i) := by
  simp only [Compiler.optArgument]
  split
  . next a h => exact Ensures.map (ih.compile a _) fun _ hn => List.Subset.trans hn (Exp.subterms_getElem? h)
  . exact Ensures.pure (List.nil_subset _)

theorem setArgument_succ (ih : NamesAt t k) (args : List Exp) (i : Nat) (accepts : List ResultStyle) :
    Ensures (Node.argMembers · ⊆ Exp.subtermsAll args) (fun _ => True)
      (Compiler.setArgument t (k + 1) args i accepts) := by
  simp only [Compiler.setArgument]
  split
  . next a h => exact (ih.compileSet a _).mono fun _ hn => List.Subset.trans hn (Exp.subterms_getElem? h)
  . exact Ensures.throw True.intro

theorem enumItems_succ (ih : NamesAt t k) (whole : Exp) (items : List Exp) (arity : Option Nat) :
    Ensures (Node.itemMembers ·.1 ⊆ Exp.subtermsAll items) (fun _ => True)
      (Compiler.enumItems t (k + 1) whole items arity) := by
  cases items with
  | nil =>
    simp only [Compiler.enumItems]
    exact Ensures.pure (List.nil_subset _)
  | cons item rest =>
    simp only [Compiler.enumItems]
    refine Ensures.bind Ensures.trivial fun shape _ => ?_
    -- the item is compiled as a single member or tuple, or spliced as a set
    have hsingle : ∀ c, Ensures (fun it : SetItem => Node.itemMembers [it] ⊆ item.subterms)
        (fun _ => True) (SetItem.single <$> Compiler.compile t k item c) := fun c =>
      Ensures.map (ih.compile item c) fun _ h => by simpa [Node.itemMembers] using h
    have hsplice : Ensures (fun it : SetItem => Node.itemMembers [it] ⊆ item.subterms)
        (fun _ => True) (SetItem.splice <$> Compiler.compileSet t k item ResultStyle.iterate) :=
      Ensures.map (ih.compileSet item _) fun _ h => by simpa [Node.itemMembers] using h
    -- the set's members are the item's, then the rest's
    have hcons : ∀ it r, Node.itemMembers [it] ⊆ item.subterms → Node.itemMembers r ⊆ Exp.subtermsAll rest →
        Node.itemMembers (it :: r) ⊆ Exp.subtermsAll (item :: rest) := fun it r hit hr => by
      rw [Node.itemMembers_cons, Exp.subtermsAll]
      exact List.append_subset.mpr ⟨List.Subset.trans hit (List.subset_append_left _ _),
        List.Subset.trans hr (List.subset_append_right _ _)⟩
    -- the item's arity is checked against the set's so far before it is compiled
    split
    case' h_1 =>
      split
      case' isTrue => exact Ensures.throw_bind True.intro
    all_goals
      split
      . exact Ensures.bind (hsingle _) fun _ hit =>
          Ensures.bind (ih.enumItems whole rest _) fun _ hr => Ensures.pure (hcons _ _ hit hr)
      . exact Ensures.bind (hsingle _) fun _ hit =>
          Ensures.bind (ih.enumItems whole rest _) fun _ hr => Ensures.pure (hcons _ _ hit hr)
      . exact Ensures.bind hsplice fun _ hit =>
          Ensures.bind (ih.enumItems whole rest _) fun _ hr => Ensures.pure (hcons _ _ hit hr)

theorem allArguments_succ (ih : NamesAt t k) (spec : FunctionSpec) (args : List Exp) (i : Nat) :
    Ensures (Node.membersAll · ⊆ Exp.subtermsAll args) (fun _ => True)
      (Compiler.allArguments t (k + 1) spec args i) := by
  rw [Compiler.allArguments]
  split
  . exact Ensures.bind (ih.argument spec args i) fun n hn =>
      Ensures.bind (ih.allArguments spec args (i + 1)) fun ns hns =>
        Ensures.pure (List.append_subset.mpr ⟨hn, hns⟩)
  . exact Ensures.pure (List.nil_subset _)

theorem allSets_succ (ih : NamesAt t k) (args : List Exp) :
    Ensures (Node.argsMembers · ⊆ Exp.subtermsAll args) (fun _ => True)
      (Compiler.allSets t (k + 1) args) := by
  cases args with
  | nil =>
    simp only [Compiler.allSets]
    exact Ensures.pure (List.nil_subset _)
  | cons a rest =>
    simp only [Compiler.allSets]
    exact Ensures.bind (ih.compileSet a _) fun s hs =>
      Ensures.bind ((ih.allSets rest).mono fun _ h => h) fun ss hss =>
        Ensures.pure (List.append_subset.mpr ⟨List.Subset.trans hs (List.subset_append_left _ _),
          List.Subset.trans hss (List.subset_append_right _ _)⟩)

theorem build_succ (ih : NamesAt t k) (spec : FunctionSpec) (e : Exp) (name : String)
    (args : List Exp) :
    Ensures (·.members ⊆ Exp.subtermsAll args) (fun _ => True)
      (Compiler.build t (k + 1) spec e name args) := by
  -- what the native sites of the call name comes from the call's operands
  have hcj := NativeSite.ofCrossJoin_subterms e args
  have hfl : (NativeSite.ofFilter e (args.getD 0 default) (args.getD 1 default)).members ⊆
      Exp.subtermsAll args :=
    List.Subset.trans (NativeSite.ofFilter_subterms _ _ _) (Exp.subterms_getD args 0)
  have htc : (NativeSite.ofTopCount e (args.getD 0 default) (args.getD 1 default) args[2]?).members ⊆
      Exp.subtermsAll args :=
    List.Subset.trans (NativeSite.ofTopCount_subterms _ _ _ _) (Exp.subterms_getD args 0)
  obtain ⟨sname, style, minArgs, maxArgs, returns, argTypes, builtin⟩ := spec
  unfold Compiler.build
  -- one case per implementation: a node over compiled operands names what they name
  cases builtin <;> dsimp only
  case arithmetic =>
    split
    . split
      . next n hfold =>
        -- a folded operation on two numeric literals is a number constant
        refine Ensures.pure ?_
        split at hfold
        . split at hfold
          . split at hfold
            . cases hfold
              simp [Node.members]
            . cases hfold
          . cases hfold
        . cases hfold
      . exact Ensures.bind (ih.argument _ args 0) fun l hl =>
          Ensures.bind (ih.argument _ args 1) fun r hr => Ensures.pure (List.append_subset.mpr ⟨hl, hr⟩)
    . exact Ensures.throw True.intro
  case compare =>
    split
    . split
      . next n hfold =>
        -- a folded comparison of two literals is a boolean constant
        refine Ensures.pure ?_
        split at hfold
        . split at hfold
          . next v hv =>
            cases hfold
            simp [Node.members, Value.members_of_conforms_boolean (compareValues_conforms hv)]
          . cases hfold
        . cases hfold
      . exact Ensures.bind (ih.argument _ args 0) fun l hl =>
          Ensures.bind (ih.argument _ args 1) fun r hr => Ensures.pure (List.append_subset.mpr ⟨hl, hr⟩)
    . exact Ensures.throw True.intro
  case negate =>
    split
    . exact Ensures.pure (List.nil_subset _)
    . exact Ensures.bind (ih.argument _ args 0) fun _ ha => Ensures.pure ha
  case logical =>
    split
    . exact Ensures.pure (List.nil_subset _)
    . exact Ensures.bind (ih.argument _ args 0) fun _ hl =>
        Ensures.bind (ih.argument _ args 1) fun _ hr => Ensures.pure (List.append_subset.mpr ⟨hl, hr⟩)
  case not | isEmpty | parent | name | children =>
    exact Ensures.bind (ih.argument _ args 0) fun _ ha => Ensures.pure ha
  case iif =>
    exact Ensures.bind (ih.argument _ args 0) fun _ hc => Ensures.bind (ih.argument _ args 1) fun _ ha =>
      Ensures.bind (ih.argument _ args 2) fun _ hb =>
        Ensures.pure (List.append_subset.mpr ⟨List.append_subset.mpr ⟨hc, ha⟩, hb⟩)
  case coalesceEmpty | tuple => exact Ensures.bind (ih.allArguments _ args 0) fun _ hns => Ensures.pure hns
  case format =>
    refine Ensures.bind (ih.argument _ args 0) fun _ hv => ?_
    split
    . exact Ensures.pure hv
    . exact Ensures.bind (ih.argument _ args 1) fun _ hw => Ensures.pure (List.append_subset.mpr ⟨hv, hw⟩)
  case currentMember | members =>
    split
    . exact Ensures.pure (List.nil_subset _)
    . exact Ensures.throw True.intro
  case defaultMember =>
    split
    . -- the default member is one of the hierarchy's own
      exact Ensures.pure (by simp [Node.members, Exp.subtermsAll, Exp.subterms])
    . exact Ensures.throw True.intro
  case braces => exact Ensures.bind (ih.enumItems e args none) fun _ hitems => Ensures.pure hitems
  case crossJoin | nonEmptyCrossJoin =>
    exact Ensures.bind (ih.allSets args) fun _ hss => Ensures.pure (List.append_subset.mpr ⟨hss, hcj⟩)
  case slicer => exact Ensures.pure (List.nil_subset _)
  case filter =>
    exact Ensures.bind (ih.setArgument args 0 _) fun _ hs => Ensures.bind (ih.argument _ args 1) fun _ hc =>
      Ensures.pure (List.append_subset.mpr ⟨List.append_subset.mpr ⟨hs, hc⟩, hfl⟩)
  case topCount =>
    exact Ensures.bind (ih.setArgument args 0 _) fun _ hs => Ensures.bind (ih.argument _ args 1) fun _ hk =>
      Ensures.bind (ih.optArgument _ args 2) fun _ hm => Ensures.pure (List.append_subset.mpr
        ⟨List.append_subset.mpr ⟨List.append_subset.mpr ⟨hs, hk⟩, hm⟩, htc⟩)
  case bottomCount =>
    exact Ensures.bind (ih.setArgument args 0 _) fun _ hs => Ensures.bind (ih.argument _ args 1) fun _ hk =>
      Ensures.bind (ih.argument _ args 2) fun _ hm => Ensures.pure (List.append_subset.mpr
        ⟨List.append_subset.mpr ⟨List.append_subset.mpr ⟨hs, hk⟩, hm⟩, List.nil_subset _⟩)
  case head | sum | avg | min | max | var | varP | stdev | stdevP | aggregate =>
    exact Ensures.bind (ih.setArgument args 0 _) fun _ hs => Ensures.bind (ih.optArgument _ args 1) fun _ hv =>
      Ensures.pure (List.append_subset.mpr ⟨hs, hv⟩)
  case median =>
    exact Ensures.bind (ih.setArgument args 0 _) fun _ hs => Ensures.bind (ih.optArgument _ args 1) fun _ hv =>
      Ensures.pure (List.append_subset.mpr ⟨List.append_subset.mpr ⟨hs, hv⟩, List.nil_subset _⟩)
  case percentile =>
    exact Ensures.bind (ih.setArgument args 0 _) fun _ hs => Ensures.bind (ih.argument _ args 1) fun _ hv =>
      Ensures.bind (ih.argument _ args 2) fun _ hp =>
        Ensures.pure (List.append_subset.mpr ⟨List.append_subset.mpr ⟨hs, hv⟩, hp⟩)
  case linRegSlope | linRegIntercept | linRegR2 | linRegVariance =>
    simp only [Compiler.regression]
    exact Ensures.bind (ih.setArgument args 0 _) fun _ hs => Ensures.bind (ih.argument _ args 1) fun _ hy =>
      Ensures.bind (ih.optArgument _ args 2) fun _ hx => Ensures.pure (List.append_subset.mpr
        ⟨List.append_subset.mpr ⟨List.append_subset.mpr ⟨List.nil_subset _, hs⟩, hy⟩, hx⟩)
  case linRegPoint =>
    exact Ensures.bind (ih.argument _ args 0) fun _ hp => Ensures.bind (ih.setArgument args 1 _) fun _ hs =>
      Ensures.bind (ih.argument _ args 2) fun _ hy => Ensures.bind (ih.optArgument _ args 3) fun _ hx =>
        Ensures.pure (List.append_subset.mpr
          ⟨List.append_subset.mpr ⟨List.append_subset.mpr ⟨hp, hs⟩, hy⟩, hx⟩)
  case covariance | covarianceN | correlation =>
    simp only [Compiler.pairwise]
    exact Ensures.bind (ih.setArgument args 0 _) fun _ hs => Ensures.bind (ih.argument _ args 1) fun _ hx =>
      Ensures.bind (ih.optArgument _ args 2) fun _ hy =>
        Ensures.pure (List.append_subset.mpr ⟨List.append_subset.mpr ⟨hs, hx⟩, hy⟩)
  -- the flags: each known one picks a value, an unknown one is a type error
  case order =>
    refine Ensures.bind (ih.setArgument args 0 _) fun _ hs => Ensures.bind (ih.argument _ args 1) fun _ hk => ?_
    split
    case h_6 => exact Ensures.throw_bind True.intro
    all_goals exact Ensures.bind Ensures.trivial fun _ _ => Ensures.pure (List.append_subset.mpr ⟨hs, hk⟩)
  case generate =>
    refine Ensures.bind (ih.setArgument args 0 _) fun _ hs => Ensures.bind (ih.setArgument args 1 _) fun _ he => ?_
    split
    case h_3 => exact Ensures.throw_bind True.intro
    all_goals exact Ensures.bind Ensures.trivial fun _ _ => Ensures.pure (List.append_subset.mpr ⟨hs, he⟩)
  case count =>
    split
    case h_4 => exact Ensures.throw_bind True.intro
    all_goals exact Ensures.bind Ensures.trivial fun _ _ =>
      Ensures.bind (ih.setArgument args 0 _) fun _ hs => Ensures.pure hs

end NamesAt

theorem namesAt (t : FunctionTable) : ∀ k, NamesAt t k
  | 0 => NamesAt.zero t
  | k + 1 =>
    have ih := namesAt t k
    ⟨ih.natural_succ, ih.compile_succ, ih.compileSet_succ, ih.argument_succ, ih.optArgument_succ,
      ih.setArgument_succ, ih.enumItems_succ, ih.allArguments_succ, ih.allSets_succ, ih.build_succ⟩

end Compiler

/-- A compiled expression names only members the expression names. -/
theorem FunctionTable.compile_members (t : FunctionTable) (e : Exp) (c : Category) {n : Node}
    (h : t.compile e c = .ok n) : n.members ⊆ e.subterms :=
  ((Compiler.namesAt t e.fuel).compile e c).of_ok h

end OlapCalc
