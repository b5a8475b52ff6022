import Flowchart.Proofs.ComponentCoverage
import Flowchart.Proofs.LayoutCoverage
import Mathlib.Data.List.Basic
import Mathlib.Data.List.Induction
import Mathlib.Logic.Relation

/-!
# Breaking cycles

An arrangement of the vertices turns every arc that points back in it.  The
turned arcs have no cycle, because all of them lead onward in the arrangement;
this holds for arrangements only, and not for any choice of arcs to be turned.
The greedy arrangement takes sinks out first, and a graph without cycles runs
out of vertices before it runs out of sinks: its arcs stay as they are.
-/

namespace Flowchart.Layered

def Leads (arcs : List Arc) (source target : ℕ) : Prop :=
  ⟨source, target⟩ ∈ arcs

/-- No way along the arcs comes back to where it started. -/
def IsAcyclic (arcs : List Arc) : Prop :=
  ∀ v, ¬ Relation.TransGen (Leads arcs) v v

variable {arcs : List Arc} {order : List ℕ}

theorem IsAcyclic.source_ne (h : IsAcyclic arcs) {arc : Arc}
    (harc : arc ∈ arcs) : arc.source ≠ arc.target := by
  intro heq
  have hloop : Leads arcs arc.source arc.target := harc
  rw [← heq] at hloop
  exact h arc.source (.single hloop)

/-- Arcs that all lead onward in an order have no cycle. -/
theorem isAcyclic_of_idxOf_lt
    (h : ∀ arc ∈ arcs, order.idxOf arc.source < order.idxOf arc.target) :
    IsAcyclic arcs := by
  have honward : ∀ {v w : ℕ}, Relation.TransGen (Leads arcs) v w →
      order.idxOf v < order.idxOf w := by
    intro v w hway
    induction hway with
    | single harc => exact h _ harc
    | tail _ harc ih => exact Nat.lt_trans ih (h _ harc)
  intro v hcycle
  exact Nat.lt_irrefl _ (honward hcycle)

/-- Among vertices of a graph without cycles, there is one from which no way
leads to any of them. -/
theorem IsAcyclic.exists_last (h : IsAcyclic arcs) {vertices : List ℕ}
    (hsome : vertices ≠ []) :
    ∃ v ∈ vertices, ∀ w ∈ vertices, ¬ Relation.TransGen (Leads arcs) v w := by
  induction vertices with
  | nil => exact absurd rfl hsome
  | cons v others ih =>
      by_cases hothers : others = []
      · subst hothers
        refine ⟨v, List.mem_singleton_self v, ?_⟩
        intro w hw
        rw [List.mem_singleton.mp hw]
        exact h v
      · obtain ⟨last, hlast, hends⟩ := ih hothers
        by_cases hway : Relation.TransGen (Leads arcs) last v
        · refine ⟨v, List.mem_cons_self, ?_⟩
          intro w hw honward
          rcases List.mem_cons.mp hw with rfl | hmem
          · exact h w honward
          · exact hends w hmem (hway.trans honward)
        · refine ⟨last, List.mem_cons_of_mem v hlast, ?_⟩
          intro w hw
          rcases List.mem_cons.mp hw with rfl | hmem
          · exact hway
          · exact hends w hmem

/-! ### Repetitions -/

theorem nodup_eraseDups {α : Type} [BEq α] [LawfulBEq α] (xs : List α) :
    xs.eraseDups.Nodup := by
  cases xs with
  | nil => exact List.nodup_nil
  | cons x others =>
      rw [List.eraseDups_cons, List.nodup_cons]
      exact ⟨by simp, nodup_eraseDups _⟩
termination_by xs.length
decreasing_by exact Nat.lt_succ_of_le (List.length_filter_le _ _)

theorem eraseDups_eq_self {α : Type} [BEq α] [LawfulBEq α] {xs : List α}
    (h : xs.Nodup) : xs.eraseDups = xs := by
  induction xs with
  | nil => rfl
  | cons x others ih =>
      rw [List.nodup_cons] at h
      have hkept : others.filter (fun other => !other == x) = others := by
        rw [List.filter_eq_self]
        intro other hother
        have hne : other ≠ x := fun heq => h.1 (heq ▸ hother)
        simpa using hne
      rw [List.eraseDups_cons, hkept, ih h.2]

/-! ### Turned arcs -/

theorem pointsBack_iff {arc : Arc} : pointsBack order arc = true ↔
    order.idxOf arc.target ≤ order.idxOf arc.source :=
  decide_eq_true_iff

/-- Two vertices have no place in common. -/
theorem idxOf_target_lt_of_pointsBack {arc : Arc}
    (h : pointsBack order arc = true) (hmem : arc.target ∈ order)
    (hne : arc.source ≠ arc.target) :
    order.idxOf arc.target < order.idxOf arc.source :=
  Nat.lt_of_le_of_ne (pointsBack_iff.mp h) fun hplace =>
    hne ((List.idxOf_inj hmem).mp hplace).symm

/-- The vertices are arranged such that no arc points back, if that is
possible. -/
structure Arranges (order : List ℕ) (arcs : List Arc) : Prop where
  mem : ∀ v ∈ endpoints arcs, v ∈ order
  not_pointsBack : IsAcyclic arcs →
    ∀ arc ∈ arcs, pointsBack order arc = false

/-- The arcs join the same vertices, once each, and without a cycle.  They are
the arcs themselves if these have no cycle. -/
structure Unwinds (oriented arcs : List Arc) : Prop where
  isAcyclic : IsAcyclic oriented
  nodup : oriented.Nodup
  ne : ∀ arc ∈ oriented, arc.source ≠ arc.target
  joins_iff : ∀ v w, ⟨v, w⟩ ∈ oriented ∨ ⟨w, v⟩ ∈ oriented ↔
    ⟨v, w⟩ ∈ arcs ∨ ⟨w, v⟩ ∈ arcs
  reverse_not_mem : ∀ arc ∈ oriented, arc.reverse ∉ oriented
  eq_self : IsAcyclic arcs → oriented = arcs

theorem mem_orient_iff {arc : Arc} :
    arc ∈ orient order arcs ↔ ∃ old ∈ arcs,
      (if pointsBack order old then old.reverse else old) = arc := by
  rw [orient, List.mem_eraseDups, List.mem_map]

theorem idxOf_lt_of_mem_orient (hmem : ∀ v ∈ endpoints arcs, v ∈ order)
    (hne : ∀ arc ∈ arcs, arc.source ≠ arc.target) {arc : Arc}
    (h : arc ∈ orient order arcs) :
    order.idxOf arc.source < order.idxOf arc.target := by
  obtain ⟨old, hold, rfl⟩ := mem_orient_iff.mp h
  split
  next hback =>
    exact idxOf_target_lt_of_pointsBack hback
      (hmem _ (mem_endpoints_iff.mpr ⟨old, hold, .inr rfl⟩)) (hne old hold)
  next hforward => exact Nat.lt_of_not_le (mt pointsBack_iff.mpr hforward)

theorem joins_orient_iff (v w : ℕ) :
    ⟨v, w⟩ ∈ orient order arcs ∨ ⟨w, v⟩ ∈ orient order arcs ↔
      ⟨v, w⟩ ∈ arcs ∨ ⟨w, v⟩ ∈ arcs := by
  constructor
  · have hold : ∀ {v w : ℕ}, ⟨v, w⟩ ∈ orient order arcs →
        ⟨v, w⟩ ∈ arcs ∨ ⟨w, v⟩ ∈ arcs := by
      intro v w h
      obtain ⟨old, hmem, heq⟩ := mem_orient_iff.mp h
      split at heq
      · obtain ⟨rfl, rfl⟩ := Arc.mk.inj heq
        exact .inr hmem
      · subst heq
        exact .inl hmem
    rintro (h | h)
    · exact hold h
    · exact (hold h).symm
  · have hnew : ∀ {v w : ℕ}, ⟨v, w⟩ ∈ arcs →
        ⟨v, w⟩ ∈ orient order arcs ∨ ⟨w, v⟩ ∈ orient order arcs := by
      intro v w h
      have hturned : (if pointsBack order ⟨v, w⟩ then Arc.reverse ⟨v, w⟩
          else ⟨v, w⟩) ∈ orient order arcs := mem_orient_iff.mpr ⟨_, h, rfl⟩
      split at hturned
      · exact .inr hturned
      · exact .inl hturned
    rintro (h | h)
    · exact hnew h
    · exact (hnew h).symm

theorem Arranges.unwinds (h : Arranges order arcs) (hnodup : arcs.Nodup)
    (hne : ∀ arc ∈ arcs, arc.source ≠ arc.target) :
    Unwinds (orient order arcs) arcs where
  isAcyclic := isAcyclic_of_idxOf_lt fun _ => idxOf_lt_of_mem_orient h.mem hne
  nodup := nodup_eraseDups _
  ne arc harc heq := by
    have honward := idxOf_lt_of_mem_orient h.mem hne harc
    rw [heq] at honward
    exact Nat.lt_irrefl _ honward
  joins_iff := joins_orient_iff
  reverse_not_mem arc harc hreverse :=
    Nat.lt_asymm (idxOf_lt_of_mem_orient h.mem hne harc)
      (idxOf_lt_of_mem_orient h.mem hne hreverse)
  eq_self hacyclic := by
    have hkept : (arcs.map fun arc =>
        if pointsBack order arc then arc.reverse else arc) = arcs := by
      conv_rhs => rw [← List.map_id arcs]
      refine List.map_congr_left fun arc harc => ?_
      rw [h.not_pointsBack hacyclic arc harc]
      rfl
    rw [orient, hkept, eraseDups_eq_self hnodup]

/-! ### The greedy arrangement -/

theorem moveToFront_perm (waiting : List ℕ) (v : ℕ) :
    (moveToFront waiting v).Perm waiting := by
  unfold moveToFront
  split
  next hmem => exact (List.perm_cons_erase (by simpa using hmem)).symm
  next => exact List.Perm.refl _

theorem takeOut_perm (arcs : List Arc) (v : ℕ) (waiting : List ℕ) :
    (takeOut arcs v waiting).Perm (waiting.erase v) := by
  have hfold : ∀ neighbors waiting : List ℕ,
      (neighbors.foldl moveToFront waiting).Perm waiting := by
    intro neighbors
    induction neighbors with
    | nil => exact fun _ => List.Perm.refl _
    | cons w others ih =>
        intro waiting
        exact (ih _).trans (moveToFront_perm waiting w)
  exact hfold _ _

theorem cons_takeOut_perm (arcs : List Arc) {v : ℕ} {waiting : List ℕ}
    (h : v ∈ waiting) : (v :: takeOut arcs v waiting).Perm waiting :=
  ((takeOut_perm arcs v waiting).cons v).trans (List.perm_cons_erase h).symm

/-- Vertices that pass the test are taken out, until none of those left does. -/
inductive Drains (arcs : List Arc) (test : List ℕ → ℕ → Bool) :
    List ℕ → List ℕ → List ℕ → Prop
  | stop {waiting : List ℕ} (hnone : ∀ v ∈ waiting, test waiting v = false) :
      Drains arcs test waiting [] waiting
  | take {waiting taken left : List ℕ} {v : ℕ} (hmem : v ∈ waiting)
      (htest : test waiting v = true)
      (hrest : Drains arcs test (takeOut arcs v waiting) taken left) :
      Drains arcs test waiting (v :: taken) left

theorem drains_drain (arcs : List Arc) (test : List ℕ → ℕ → Bool)
    (waiting : List ℕ) :
    Drains arcs test waiting (drain arcs test waiting).1
      (drain arcs test waiting).2 := by
  fun_induction drain arcs test waiting with
  | case1 waiting hnone =>
      exact .stop (by simpa using List.find?_eq_none.mp hnone)
  | case2 waiting v hfind rest hlength taken left hdrain ih =>
      rw [hdrain] at ih
      exact .take (List.mem_of_find?_eq_some hfind) (List.find?_some hfind) ih
  | case3 waiting v hfind rest hlength =>
      -- A waiting vertex leaves fewer vertices behind.
      have hmem := List.mem_of_find?_eq_some hfind
      have hfewer := (cons_takeOut_perm arcs hmem).length_eq
      rw [List.length_cons] at hfewer
      exact absurd (Nat.lt_of_succ_le (Nat.le_of_eq hfewer)) hlength

namespace Drains

variable {test : List ℕ → ℕ → Bool} {waiting taken left : List ℕ}

theorem perm (h : Drains arcs test waiting taken left) :
    (taken ++ left).Perm waiting := by
  induction h with
  | stop => exact List.Perm.refl _
  | take hmem _ _ ih => exact (ih.cons _).trans (cons_takeOut_perm arcs hmem)

theorem test_eq_false (h : Drains arcs test waiting taken left) :
    ∀ v ∈ left, test left v = false := by
  induction h with
  | stop hnone => exact hnone
  | take _ _ _ ih => exact ih

end Drains

theorem isSink_iff {waiting : List ℕ} {v : ℕ} :
    isSink arcs waiting v = true ↔ ∀ w ∈ waiting, ¬ Leads arcs v w := by
  simp only [isSink, outDegree, beq_iff_eq, List.countP_eq_zero,
    Bool.and_eq_true, List.contains_iff_mem]
  constructor
  · intro h w hw harc
    exact h _ harc ⟨rfl, hw⟩
  · rintro h ⟨source, target⟩ harc ⟨rfl, htarget⟩
    exact h target htarget harc

/-- No arc leads from a drained sink to one that is drained later. -/
theorem Drains.pairwise_not_leads {waiting taken left : List ℕ}
    (h : Drains arcs (isSink arcs) waiting taken left) :
    taken.Pairwise fun v w => ¬ Leads arcs v w := by
  induction h with
  | stop => exact List.Pairwise.nil
  | take hmem hsink hrest ih =>
      refine List.pairwise_cons.mpr ⟨?_, ih⟩
      intro w hw
      have hbehind := hrest.perm.subset (List.mem_append_left _ hw)
      exact isSink_iff.mp hsink w
        ((cons_takeOut_perm arcs hmem).subset (List.mem_cons_of_mem _ hbehind))

/-- Without cycles, every vertex becomes a sink. -/
theorem Drains.eq_nil {waiting taken left : List ℕ}
    (h : Drains arcs (isSink arcs) waiting taken left)
    (hacyclic : IsAcyclic arcs) : left = [] := by
  by_contra hsome
  obtain ⟨v, hv, hlast⟩ := hacyclic.exists_last hsome
  have hsink := isSink_iff.mpr fun w hw harc => hlast w hw (.single harc)
  rw [h.test_eq_false v hv] at hsink
  cases hsink

theorem mem_of_greatestSurplus? {waiting : List ℕ} {v : ℕ}
    (h : greatestSurplus? arcs waiting = some v) : v ∈ waiting := by
  have hfold : ∀ (others : List ℕ) (first : ℕ),
      others.foldl (fun best v =>
        if surplus arcs waiting best < surplus arcs waiting v then v
        else best) first ∈ first :: others := by
    intro others
    induction others with
    | nil => exact fun first => List.mem_singleton_self first
    | cons w others ih =>
        intro first
        rw [List.foldl_cons]
        rcases List.mem_cons.mp (ih _) with heq | hmem
        · rw [heq]
          split_ifs <;> simp
        · exact List.mem_cons_of_mem _ (List.mem_cons_of_mem _ hmem)
  unfold greatestSurplus? at h
  dsimp only at h
  split at h
  next => cases h
  next first others hinner =>
    cases h
    have hmem := hfold others first
    rw [← hinner] at hmem
    exact (List.mem_filter.mp hmem).1

theorem arrange_perm (arcs : List Arc) (waiting : List ℕ) :
    (arrange arcs waiting).Perm waiting := by
  fun_induction arrange arcs waiting with
  | case1 waiting sinks inner hsinks sources rest hsources next left hnext
      between ih =>
      have hinner : (sinks ++ inner).Perm waiting := by
        have hdrain := (drains_drain arcs (isSink arcs) waiting).perm
        rwa [hsinks] at hdrain
      have hrest : (sources ++ rest).Perm inner := by
        have hdrain := (drains_drain arcs (isSource arcs) inner).perm
        rwa [hsources] at hdrain
      have hleft : (next ++ left).Perm rest := by
        split at hnext
        next v hv =>
          cases hnext
          exact cons_takeOut_perm arcs (mem_of_greatestSurplus? hv)
        next =>
          cases hnext
          exact List.Perm.refl _
      have hbetween : between.Perm left := by
        dsimp only [between]
        split_ifs with hfewer
        · exact ih hfewer
        · exact List.Perm.refl _
      calc (sources ++ next ++ between ++ sinks.reverse).Perm
            (sinks.reverse ++ (sources ++ next ++ between)) :=
            List.perm_append_comm
        _ |>.Perm (sinks ++ (sources ++ (next ++ left))) := by
            rw [List.append_assoc sources]
            exact sinks.reverse_perm.append
              ((hbetween.append_left next).append_left sources)
        _ |>.Perm (sinks ++ inner) :=
            ((hleft.append_left sources).trans hrest).append_left sinks
        _ |>.Perm waiting := hinner

theorem greedyOrder_perm (arcs : List Arc) :
    (greedyOrder arcs).Perm (endpoints arcs) :=
  (arrange_perm arcs _).trans (endpoints arcs).reverse_perm

/-- Without cycles, the arrangement is made of sinks alone. -/
theorem IsAcyclic.arrange_eq (h : IsAcyclic arcs) (waiting : List ℕ) :
    arrange arcs waiting = (drain arcs (isSink arcs) waiting).1.reverse := by
  have hnil := (drains_drain arcs (isSink arcs) waiting).eq_nil h
  have harrange : arrange arcs [] = [] := (arrange_perm arcs []).eq_nil
  have hdrain : drain arcs (isSource arcs) [] = ([], []) := by
    rw [drain]
    rfl
  have hsurplus : greatestSurplus? arcs [] = none := rfl
  rw [arrange]
  generalize drain arcs (isSink arcs) waiting = drained at hnil ⊢
  obtain ⟨sinks, inner⟩ := drained
  obtain rfl : inner = [] := hnil
  simp [hdrain, hsurplus, harrange]

/-- The greedy arrangement names every vertex of an arc, and in a graph without
cycles no arc points back in it. -/
theorem arranges_greedyOrder (arcs : List Arc) :
    Arranges (greedyOrder arcs) arcs where
  mem _ hv := (greedyOrder_perm arcs).symm.subset hv
  not_pointsBack hacyclic arc harc := by
    have hall := (greedyOrder_perm arcs).symm.subset
    have hsource := hall (mem_endpoints_iff.mpr ⟨arc, harc, .inl rfl⟩)
    have htarget := hall (mem_endpoints_iff.mpr ⟨arc, harc, .inr rfl⟩)
    have hpairwise : (greedyOrder arcs).Pairwise fun v w =>
        ¬ Leads arcs w v := by
      rw [greedyOrder, hacyclic.arrange_eq, List.pairwise_reverse]
      exact (drains_drain arcs (isSink arcs) _).pairwise_not_leads
    rw [← Bool.not_eq_true]
    intro hback
    have hbehind := idxOf_target_lt_of_pointsBack hback htarget
      (hacyclic.source_ne harc)
    have hnone := List.pairwise_iff_getElem.mp hpairwise _ _
      (List.idxOf_lt_length_of_mem htarget)
      (List.idxOf_lt_length_of_mem hsource) hbehind
    rw [List.getElem_idxOf, List.getElem_idxOf] at hnone
    exact hnone harc

end Flowchart.Layered

namespace Flowchart.LayeredGraph

open Layered

variable {α : Type}

/-! ### Graphs of added arcs -/

/-- The graph of the boxes to which the arcs between the given ends are added,
one after the other. -/
def ofEnds (sizes : List (Size α)) (ends : List (ℕ × ℕ)) : LayeredGraph α :=
  ends.foldl (fun graph (source, target) => graph.addArc source target)
    ⟨sizes, []⟩

theorem ofEnds_concat (sizes : List (Size α)) (ends : List (ℕ × ℕ))
    (source target : ℕ) :
    ofEnds sizes (ends ++ [(source, target)]) =
      (ofEnds sizes ends).addArc source target := by
  rw [ofEnds, List.foldl_append]
  rfl

theorem sizes_ofEnds (sizes : List (Size α)) (ends : List (ℕ × ℕ)) :
    (ofEnds sizes ends).sizes = sizes := by
  induction ends using List.reverseRecOn with
  | nil => rfl
  | append_singleton ends last ih =>
      rw [ofEnds_concat, Layout.sizes_addArc, ih]

/-- What adding an arc does: an arc that makes sense and is new comes last. -/
theorem addArc_cases (graph : LayeredGraph α) (source target : ℕ) :
    ((source = target ∨ graph.sizes.length ≤ source ∨
          graph.sizes.length ≤ target ∨ ⟨source, target⟩ ∈ graph.arcs) ∧
        graph.addArc source target = graph) ∨
      (source ≠ target ∧ source < graph.sizes.length ∧
        target < graph.sizes.length ∧ ⟨source, target⟩ ∉ graph.arcs ∧
        (graph.addArc source target).arcs =
          graph.arcs ++ [⟨source, target⟩]) := by
  unfold addArc
  dsimp only
  split_ifs with hsenseless hold
  · exact .inl ⟨by omega, rfl⟩
  · exact .inl ⟨.inr (.inr (.inr (List.contains_iff_mem.mp hold))), rfl⟩
  · refine .inr ⟨by omega, by omega, by omega, ?_, rfl⟩
    exact mt List.contains_iff_mem.mpr hold

theorem mem_arcs_addArc_iff {graph : LayeredGraph α} {source target : ℕ}
    {arc : Arc} :
    arc ∈ (graph.addArc source target).arcs ↔
      arc ∈ graph.arcs ∨ arc = ⟨source, target⟩ ∧ source ≠ target ∧
        source < graph.sizes.length ∧ target < graph.sizes.length := by
  rcases graph.addArc_cases source target with
    ⟨hold, hsame⟩ | ⟨hne, hsource, htarget, -, harcs⟩
  · rw [hsame, iff_self_or]
    rintro ⟨rfl, hne, hsource, htarget⟩
    rcases hold with heq | hfar | hfar | hmem
    · exact absurd heq hne
    · exact absurd hsource (Nat.not_lt.mpr hfar)
    · exact absurd htarget (Nat.not_lt.mpr hfar)
    · exact hmem
  · simp [harcs, hne, hsource, htarget]

theorem nodup_arcs_ofEnds (sizes : List (Size α)) (ends : List (ℕ × ℕ)) :
    (ofEnds sizes ends).arcs.Nodup := by
  induction ends using List.reverseRecOn with
  | nil => exact List.nodup_nil
  | append_singleton ends last ih =>
      rw [ofEnds_concat]
      rcases addArc_cases (ofEnds sizes ends) last.1 last.2 with
        ⟨-, hsame⟩ | ⟨-, -, -, hnew, harcs⟩
      · rwa [hsame]
      · rw [harcs]
        exact List.nodup_append.mpr ⟨ih, List.nodup_singleton _, by
          rintro arc harc other hother rfl
          exact hnew (List.mem_singleton.mp hother ▸ harc)⟩

theorem mem_arcs_ofEnds_iff {sizes : List (Size α)} {ends : List (ℕ × ℕ)}
    {source target : ℕ} :
    ⟨source, target⟩ ∈ (ofEnds sizes ends).arcs ↔
      (source, target) ∈ ends ∧ source ≠ target ∧ source < sizes.length ∧
        target < sizes.length := by
  induction ends using List.reverseRecOn with
  | nil => simp [ofEnds]
  | append_singleton ends last ih =>
      obtain ⟨first, second⟩ := last
      rw [ofEnds_concat, mem_arcs_addArc_iff, ih, sizes_ofEnds,
        List.mem_append, List.mem_singleton, Arc.mk.injEq, Prod.mk.injEq]
      constructor
      · rintro (⟨hmem, hkept⟩ | ⟨⟨rfl, rfl⟩, hkept⟩)
        · exact ⟨.inl hmem, hkept⟩
        · exact ⟨.inr ⟨rfl, rfl⟩, hkept⟩
      · rintro ⟨hmem | ⟨rfl, rfl⟩, hkept⟩
        · exact .inl ⟨hmem, hkept⟩
        · exact .inr ⟨⟨rfl, rfl⟩, hkept⟩

/-- Whatever arcs are added, those that make sense are kept, once each, and any
arrangement of the vertices breaks their cycles; so does the greedy one. -/
theorem unwinds_orientedArcs (sizes : List (Size α)) (ends : List (ℕ × ℕ)) :
    let graph := ofEnds sizes ends
    (∀ v w, ⟨v, w⟩ ∈ graph.arcs ↔
      (v, w) ∈ ends ∧ v ≠ w ∧ v < sizes.length ∧ w < sizes.length) ∧
    (∀ order, Arranges order graph.arcs →
      Unwinds (orient order graph.arcs) graph.arcs) ∧
    Arranges (greedyOrder graph.arcs) graph.arcs ∧
    Unwinds graph.orientedArcs graph.arcs := by
  intro graph
  have hnodup : graph.arcs.Nodup := nodup_arcs_ofEnds sizes ends
  have hne : ∀ arc ∈ graph.arcs, arc.source ≠ arc.target :=
    fun _ harc => (mem_arcs_ofEnds_iff.mp harc).2.1
  have hgreedy := arranges_greedyOrder graph.arcs
  exact ⟨fun _ _ => mem_arcs_ofEnds_iff, fun _ h => h.unwinds hnodup hne,
    hgreedy, hgreedy.unwinds hnodup hne⟩

/-- A cycle of three arcs, one of them with an opposite; a loop, a repetition
and an arc to nowhere are not kept. -/
theorem unwinds_orientedArcs_cycle :
    let graph : LayeredGraph ℕ := ofEnds (List.replicate 3 ⟨1, 1⟩)
      [(0, 1), (1, 2), (1, 1), (2, 0), (1, 0), (0, 1), (5, 1)]
    Arranges [2, 0, 1] graph.arcs ∧
      Unwinds (orient [2, 0, 1] graph.arcs) graph.arcs ∧
      orient [2, 0, 1] graph.arcs = [⟨0, 1⟩, ⟨2, 1⟩, ⟨2, 0⟩] := by
  intro graph
  have hcycle : ¬ IsAcyclic graph.arcs := by
    intro hacyclic
    have hthere : Leads graph.arcs 0 1 := by
      unfold Leads
      decide
    have hback : Leads graph.arcs 1 0 := by
      unfold Leads
      decide
    exact hacyclic 0 (.tail (.single hthere) hback)
  have harranges : Arranges [2, 0, 1] graph.arcs :=
    ⟨by decide, fun hacyclic => absurd hacyclic hcycle⟩
  exact ⟨harranges, (unwinds_orientedArcs _ _).2.1 [2, 0, 1] harranges,
    by decide⟩

end Flowchart.LayeredGraph
