import HostScript.Render.TypeMembers
import Mathlib.Data.List.Nodup
import Mathlib.Data.List.Perm.Subperm
import Mathlib.Logic.Relation

/-!
# The order of inheritance

The classes of a module are placed one after the other, each behind its superclass as far as the
chain of superclasses has an end. A visit keeps what is placed in order and leaves alone the
classes whose superclass is still being looked for, which is what cuts a cycle.
-/

namespace HostScript.Render

open Declaration

variable {classes ordered : List ClassType} {c d p : ClassType} {trail : List Text} {fuel : Nat}

/-- `p` is the superclass of `c` among the given classes. -/
def Extends (classes : List ClassType) (c p : ClassType) : Prop :=
  p ∈ classes ∧ p.name = c.superclass

/-- No class on the chain of superclasses that starts with `c` is its own ancestor. -/
def AcyclicChain (classes : List ClassType) (c : ClassType) : Prop :=
  ∀ d, Relation.ReflTransGen (Extends classes) c d → ¬ Relation.TransGen (Extends classes) d d

/-- A chain that goes on acyclicly, or not at all, is acyclic. -/
theorem acyclicChain_of_parent (h : ∀ p, Extends classes c p → AcyclicChain classes p) :
    AcyclicChain classes c := by
  intro d hd hcycle
  rcases Relation.ReflTransGen.cases_head hd with rfl | ⟨p, hp, hd⟩
  · obtain ⟨p, hp, hback⟩ := Relation.TransGen.head'_iff.mp hcycle
    exact h p hp p .refl (.tail' hback hp)
  · exact h p hp d hd hcycle

/-- The superclass that a visit goes to. -/
theorem extends_of_classNamed? (h : classNamed? classes c.superclass = some p) :
    Extends classes c p := by
  have hname := List.find?_some h
  exact ⟨List.mem_reverse.mp (List.mem_of_find?_eq_some h), eq_of_beq hname⟩

theorem isSome_classNamed? (h : Extends classes c p) :
    ∃ q, classNamed? classes c.superclass = some q := by
  refine Option.isSome_iff_exists.mp (List.find?_isSome.mpr ⟨p, List.mem_reverse.mpr h.1, ?_⟩)
  exact beq_iff_eq.mpr h.2

/-! ### The bound on the depth -/

/-- A trail without repetitions is no longer than the list of classes. -/
theorem length_trail_le (hnodup : trail.Nodup) (hsub : trail ⊆ classes.map (·.name)) :
    trail.length ≤ classes.length := by
  rw [← List.length_map ClassType.name]
  exact (hnodup.subperm hsub).length_le

/-- The depth of a visit is bounded by the classes that are not on the trail: a larger bound
changes nothing. -/
theorem placeClass_fuel_congr {fuel' : Nat} (hc : c ∈ classes) (hnodup : trail.Nodup)
    (hsub : trail ⊆ classes.map (·.name)) (hfuel : classes.length < fuel + trail.length)
    (hfuel' : classes.length < fuel' + trail.length) :
    placeClass classes fuel trail ordered c = placeClass classes fuel' trail ordered c := by
  have hlength := length_trail_le hnodup hsub
  induction fuel generalizing fuel' trail ordered c with
  | zero => omega
  | succ fuel ih =>
    obtain ⟨fuel', rfl⟩ := Nat.exists_eq_add_one_of_ne_zero (show fuel' ≠ 0 by omega)
    rw [placeClass, placeClass]
    split
    · rfl
    · rename_i hnew
      have htrail : c.name ∉ trail := fun hmem => hnew (by simp [hmem])
      have hsub' : c.name :: trail ⊆ classes.map (·.name) :=
        List.cons_subset.mpr ⟨List.mem_map_of_mem hc, hsub⟩
      have hnodup' : (c.name :: trail).Nodup := List.nodup_cons.mpr ⟨htrail, hnodup⟩
      cases hparent : classNamed? classes c.superclass with
      | none => rfl
      | some p =>
        refine congrArg (· ++ [c]) (ih (extends_of_classNamed? hparent).1 hnodup' hsub' ?_ ?_
          (length_trail_le hnodup' hsub'))
        · rw [List.length_cons]
          omega
        · rw [List.length_cons]
          omega

/-! ### What a visit does -/

/-- Some classes in order: each is there once, none of those on the trail is, and a superclass
comes ahead of the classes below it whose chain has an end. -/
structure IsPlaced (classes : List ClassType) (trail : List Text) (ordered : List ClassType) :
    Prop where
  subset : ordered ⊆ classes
  nodup : (ordered.map (·.name)).Nodup
  notOnTrail : ∀ d ∈ ordered, d.name ∉ trail
  behind : ∀ d ∈ ordered, AcyclicChain classes d → ∀ p, Extends classes d p → [p, d].Sublist ordered

theorem isPlaced_nil : IsPlaced classes [] [] where
  subset := List.nil_subset _
  nodup := List.nodup_nil
  notOnTrail _ hd := absurd hd List.not_mem_nil
  behind _ hd := absurd hd List.not_mem_nil

/-- A class that is neither placed nor on the trail may go on the trail. -/
theorem IsPlaced.enter (h : IsPlaced classes trail ordered)
    (hnew : ∀ d ∈ ordered, d.name ≠ c.name) : IsPlaced classes (c.name :: trail) ordered where
  subset := h.subset
  nodup := h.nodup
  notOnTrail d hd := List.not_mem_cons_of_ne_of_not_mem (hnew d hd) (h.notOnTrail d hd)
  behind := h.behind

/-- A class leaves the trail by being placed, behind its superclass if its chain has an end. -/
theorem IsPlaced.leave (h : IsPlaced classes (c.name :: trail) ordered) (hc : c ∈ classes)
    (htrail : c.name ∉ trail)
    (hparent : AcyclicChain classes c → ∀ p, Extends classes c p → p ∈ ordered) :
    IsPlaced classes trail (ordered ++ [c]) where
  subset := List.append_subset.mpr ⟨h.subset, List.cons_subset.mpr ⟨hc, List.nil_subset _⟩⟩
  nodup := by
    rw [List.map_append, List.map_singleton, ← List.concat_eq_append, List.nodup_concat]
    refine ⟨?_, h.nodup⟩
    intro hmem
    obtain ⟨d, hd, hname⟩ := List.mem_map.mp hmem
    exact List.ne_of_not_mem_cons (h.notOnTrail d hd) hname
  notOnTrail d hd := by
    rcases List.mem_append.mp hd with hd | hd
    · exact List.not_mem_of_not_mem_cons (h.notOnTrail d hd)
    · rwa [List.mem_singleton.mp hd]
  behind d hd hacyclic p hp := by
    rcases List.mem_append.mp hd with hd | hd
    · exact (h.behind d hd hacyclic p hp).trans (List.sublist_append_left ..)
    · obtain rfl := List.mem_singleton.mp hd
      exact (List.singleton_sublist.mpr (hparent hacyclic p hp)).append (List.Sublist.refl [d])

variable (hnames : (classes.map (·.name)).Nodup)
include hnames

theorem eq_of_name_eq (hc : c ∈ classes) (hd : d ∈ classes) (h : c.name = d.name) : c = d :=
  List.inj_on_of_nodup_map hnames hc hd h

/-- A visit keeps the order, only adds classes, and ends with the class placed unless it is on the
trail. -/
theorem placeClass_spec (hc : c ∈ classes) (hplaced : IsPlaced classes trail ordered)
    (hchain : ∀ d ∈ classes, d.name ∈ trail → Relation.TransGen (Extends classes) d c)
    (hnodup : trail.Nodup) (hsub : trail ⊆ classes.map (·.name))
    (hfuel : classes.length < fuel + trail.length) :
    IsPlaced classes trail (placeClass classes fuel trail ordered c) ∧
      ordered ⊆ placeClass classes fuel trail ordered c ∧
        (c ∈ placeClass classes fuel trail ordered c ∨ c.name ∈ trail) := by
  induction fuel generalizing trail ordered c with
  | zero =>
    have := length_trail_le hnodup hsub
    omega
  | succ fuel ih =>
    rw [placeClass]
    split
    case isTrue hseen =>
      refine ⟨hplaced, List.Subset.refl _, ?_⟩
      rcases Bool.or_eq_true_iff.mp hseen with hseen | hseen
      · obtain ⟨d, hd, hname⟩ := List.any_eq_true.mp hseen
        exact Or.inl (eq_of_name_eq hnames (hplaced.subset hd) hc (eq_of_beq hname) ▸ hd)
      · exact Or.inr (List.contains_iff_mem.mp hseen)
    case isFalse hnew =>
      obtain ⟨hunseen, htrail⟩ := Bool.or_eq_false_iff.mp (Bool.not_eq_true _ ▸ hnew)
      have htrail : c.name ∉ trail := fun h => by simp [h] at htrail
      have hentered : IsPlaced classes (c.name :: trail) ordered :=
        hplaced.enter fun d hd hname => List.any_eq_false.mp hunseen d hd (beq_iff_eq.mpr hname)
      cases hparent : classNamed? classes c.superclass with
      | none =>
        refine ⟨hentered.leave hc htrail ?_, List.subset_append_left .., Or.inl (by simp)⟩
        intro _ p hp
        obtain ⟨q, hq⟩ := isSome_classNamed? hp
        rw [hq] at hparent
        cases hparent
      | some p =>
        have hp : Extends classes c p := extends_of_classNamed? hparent
        have hchain' : ∀ d ∈ classes, d.name ∈ c.name :: trail →
            Relation.TransGen (Extends classes) d p := by
          intro d hd hmem
          rcases List.mem_cons.mp hmem with hname | hmem
          · exact eq_of_name_eq hnames hd hc hname ▸ .single hp
          · exact (hchain d hd hmem).tail hp
        obtain ⟨hkept, hmore, hend⟩ := ih hp.1 hentered hchain'
          (List.nodup_cons.mpr ⟨htrail, hnodup⟩)
          (List.cons_subset.mpr ⟨List.mem_map_of_mem hc, hsub⟩)
          (by rw [List.length_cons]; omega)
        refine ⟨hkept.leave hc htrail ?_, List.Subset.trans hmore (List.subset_append_left ..),
          Or.inl (by simp)⟩
        -- On an acyclic chain the superclass is not on the trail, all of which leads to it.
        intro hacyclic q hq
        obtain rfl : q = p := eq_of_name_eq hnames hq.1 hp.1 (hq.2.trans hp.2.symm)
        exact hend.resolve_right fun hmem =>
          hacyclic q (.single hq) (hchain' q hq.1 hmem)

/-- A run over some of the classes keeps the order and places them all. -/
theorem foldl_placeClass_spec {cs : List ClassType} (hcs : cs ⊆ classes)
    (hplaced : IsPlaced classes [] ordered) (hfuel : classes.length < fuel) :
    IsPlaced classes [] (cs.foldl (placeClass classes fuel []) ordered) ∧
      ordered ⊆ cs.foldl (placeClass classes fuel []) ordered ∧
        cs ⊆ cs.foldl (placeClass classes fuel []) ordered := by
  induction cs generalizing ordered with
  | nil => exact ⟨hplaced, List.Subset.refl _, List.nil_subset _⟩
  | cons c cs ih =>
    obtain ⟨hc, hcs⟩ := List.cons_subset.mp hcs
    obtain ⟨hstep, hmore, hend⟩ := placeClass_spec hnames hc hplaced
      (fun d _ hd => absurd hd List.not_mem_nil) List.nodup_nil (List.nil_subset _) hfuel
    obtain ⟨hrun, hkept, hall⟩ := ih hcs hstep
    have hmem : c ∈ placeClass classes fuel [] ordered c := hend.resolve_right List.not_mem_nil
    exact ⟨hrun, List.Subset.trans hmore hkept, List.cons_subset.mpr ⟨hkept hmem, hall⟩⟩

/-- In a list that holds a class once, what comes ahead of it stands in the part ahead of it. -/
theorem mem_of_sublist_append {before after : List ClassType}
    (hsplit : before ++ c :: after = classes) (h : [p, c].Sublist classes) : p ∈ before := by
  subst hsplit
  have hc : c ∉ before ∧ c ∉ after := by
    have hnodup := (hnames.of_map _)
    rw [List.nodup_middle, List.nodup_cons, List.mem_append, not_or] at hnodup
    exact hnodup.1
  obtain ⟨l, l', hl, hbefore, hafter⟩ := List.sublist_append_iff.mp h
  cases l with
  | nil =>
    obtain rfl : [p, c] = l' := hl
    rcases List.sublist_cons_iff.mp hafter with hafter | ⟨r, hr, hafter⟩
    · exact absurd (hafter.subset (by simp)) hc.2
    · obtain ⟨-, rfl⟩ := List.cons.inj hr
      exact absurd (hafter.subset (by simp)) hc.2
  | cons q l =>
    obtain ⟨rfl, -⟩ := List.cons.inj hl
    exact hbefore.subset (List.mem_cons_self ..)

/-- Classes that stand behind their superclasses stay where they are. -/
theorem foldl_placeClass_of_ordered {before after : List ClassType}
    (hahead : ∀ c ∈ classes, ∀ p, Extends classes c p → [p, c].Sublist classes)
    (hsplit : before ++ after = classes) :
    after.foldl (placeClass classes (fuel + 1) []) before = classes := by
  induction after generalizing before with
  | nil => rw [List.foldl_nil, ← hsplit, List.append_nil]
  | cons c after ih =>
    have hmem : c ∈ classes := hsplit ▸ List.mem_append_right _ (List.mem_cons_self ..)
    have hunseen : before.any (·.name == c.name) = false := by
      refine List.any_eq_false.mpr fun d hd hname => ?_
      have hnodup := hnames
      rw [← hsplit, List.map_append, List.nodup_append] at hnodup
      exact hnodup.2.2 _ (List.mem_map_of_mem hd) _ (List.mem_map_of_mem (List.mem_cons_self ..))
        (eq_of_beq hname)
    have hstep : placeClass classes (fuel + 1) [] before c = before ++ [c] := by
      rw [placeClass, hunseen, List.contains_nil, Bool.or_false, if_neg Bool.false_ne_true]
      cases hparent : classNamed? classes c.superclass with
      | none => rfl
      | some p =>
        have hp := mem_of_sublist_append hnames hsplit
          (hahead c hmem p (extends_of_classNamed? hparent))
        have hseen : before.any (·.name == p.name) = true :=
          List.any_eq_true.mpr ⟨p, hp, beq_self_eq_true _⟩
        cases fuel with
        | zero => rfl
        | succ fuel =>
          simp only
          rw [placeClass, hseen, Bool.true_or, if_pos rfl]
    rw [List.foldl_cons, hstep]
    exact ih (by rw [List.append_assoc, List.singleton_append, hsplit])

omit hnames

/-- The bound on the depth of the visits plays no part in the order. -/
theorem foldl_placeClass_eq (hfuel : classes.length < fuel) :
    classes.foldl (placeClass classes fuel []) [] = inheritanceOrder classes := by
  refine List.foldl_ext _ _ _ fun ordered c hc => ?_
  exact placeClass_fuel_congr hc List.nodup_nil (List.nil_subset _) hfuel (Nat.lt_succ_self _)

/-- The classes of a module are rendered each once, in an order that does not depend on how deep
chains may be followed, and behind its superclass where the chain of superclasses has an end.
Classes that stand behind their superclasses already stay where they are. -/
theorem inheritanceOrder_behind (classes : List ClassType)
    (hnames : (classes.map (·.name)).Nodup) :
    (∀ fuel > classes.length,
        classes.foldl (placeClass classes fuel []) [] = inheritanceOrder classes) ∧
      (inheritanceOrder classes).Perm classes ∧
      (∀ c ∈ classes, AcyclicChain classes c →
        ∀ p, Extends classes c p → [p, c].Sublist (inheritanceOrder classes)) ∧
      ((∀ c ∈ classes, ∀ p, Extends classes c p → [p, c].Sublist classes) →
        inheritanceOrder classes = classes) := by
  obtain ⟨hplaced, -, hall⟩ := foldl_placeClass_spec hnames (List.Subset.refl _)
    isPlaced_nil (Nat.lt_succ_self classes.length)
  refine ⟨fun fuel hfuel => foldl_placeClass_eq hfuel, ?_, ?_, ?_⟩
  · refine (List.perm_ext_iff_of_nodup (hplaced.nodup.of_map _) (hnames.of_map _)).mpr fun c => ?_
    exact ⟨fun hc => hplaced.subset hc, fun hc => hall hc⟩
  · exact fun c hc => hplaced.behind c (hall hc)
  · intro hahead
    exact foldl_placeClass_of_ordered hnames hahead (List.nil_append _)

private def derived (n superclass : String) : ClassType := { name := n, superclass := superclass }

/-- A class ahead of its superclass, and two classes that name each other. -/
private def tangled : List ClassType :=
  [derived "Dog" "Animal", derived "A" "B", derived "B" "A", derived "Animal" ""]

/-- The superclass comes first, and the cycle is cut where it is entered. -/
theorem inheritanceOrder_behind_tangled :
    (tangled.map (·.name)).Nodup ∧
      inheritanceOrder tangled =
        [derived "Animal" "", derived "Dog" "Animal", derived "B" "A", derived "A" "B"] ∧
      (inheritanceOrder tangled).Perm tangled ∧
      [derived "Animal" "", derived "Dog" "Animal"].Sublist (inheritanceOrder tangled) := by
  have hnames : (tangled.map (·.name)).Nodup := by decide
  obtain ⟨-, hperm, hbehind, -⟩ := inheritanceOrder_behind tangled hnames
  refine ⟨hnames, rfl, hperm, hbehind _ (List.mem_cons_self ..) ?_ _ ⟨by simp [tangled], rfl⟩⟩
  have hroot : AcyclicChain tangled (derived "Animal" "") := by
    refine acyclicChain_of_parent fun p hp => absurd hp.2 ?_
    have : ∀ p ∈ tangled, p.name ≠ [] := by decide
    exact this p hp.1
  refine acyclicChain_of_parent fun p hp => ?_
  have hanimal : Extends tangled (derived "Dog" "Animal") (derived "Animal" "") :=
    ⟨by simp [tangled], rfl⟩
  exact eq_of_name_eq hnames hp.1 hanimal.1 (hp.2.trans hanimal.2.symm) ▸ hroot

end HostScript.Render
