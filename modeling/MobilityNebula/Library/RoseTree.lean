import Mathlib

/-!
# RoseTree — trees with any number of children

A rewrite pass over a tree of operators visits the children first and then computes a new label for the node
from its old label and the new labels of the children.  `relabel` is that pass, `Relabelled` the relation that
it computes, and `Relabelled.induction` the rule by which a property of every node of the result is proved.
-/

namespace MobilityNebula.Library

open List

universe u v

/-- A label and the list of subtrees below it. -/
inductive RoseTree (α : Type u) where
  | node (label : α) (children : List (RoseTree α))

namespace RoseTree

variable {α : Type u} {β : Type v}

def label : RoseTree α → α
  | node a _ => a

def children : RoseTree α → List (RoseTree α)
  | node _ cs => cs

variable (a : α)

@[simp] lemma label_node (cs : List (RoseTree α)) : (node a cs).label = a := rfl

@[simp] lemma children_node (cs : List (RoseTree α)) : (node a cs).children = cs := rfl

lemma induction {motive : RoseTree α → Prop}
    (node : ∀ a cs, (∀ c ∈ cs, motive c) → motive (node a cs)) (t : RoseTree α) : motive t :=
  @RoseTree.rec α motive (fun cs => ∀ c ∈ cs, motive c) node nofun (fun _ _ hc hcs => forall_mem_cons.2 ⟨hc, hcs⟩) t

/-! ## The subtrees -/

mutual

/-- The tree and everything below it, a node before its children. -/
def subtrees : RoseTree α → List (RoseTree α)
  | node a cs => node a cs :: subtreesOfAll cs

def subtreesOfAll : List (RoseTree α) → List (RoseTree α)
  | [] => []
  | c :: cs => subtrees c ++ subtreesOfAll cs

end

lemma subtreesOfAll_eq (cs : List (RoseTree α)) : subtreesOfAll cs = cs.flatMap subtrees := by
  induction cs with
  | nil => rfl
  | cons c cs ih => rw [subtreesOfAll, ih, flatMap_cons]

lemma subtrees_node (cs : List (RoseTree α)) : subtrees (node a cs) = node a cs :: cs.flatMap subtrees := by
  rw [subtrees, subtreesOfAll_eq]

variable (t : RoseTree α)

lemma mem_subtrees_self : t ∈ t.subtrees := by
  cases t
  exact mem_cons_self

variable {cs : List (RoseTree α)}

lemma mem_subtrees_node {a : α} {t : RoseTree α} :
    t ∈ (node a cs).subtrees ↔ t = node a cs ∨ ∃ c ∈ cs, t ∈ c.subtrees := by
  rw [subtrees_node, mem_cons, mem_flatMap]

lemma mem_subtrees_trans {r s t : RoseTree α} (hst : s ∈ t.subtrees) (hrs : r ∈ s.subtrees) : r ∈ t.subtrees := by
  induction t using induction with
  | node a cs ih =>
    rcases mem_subtrees_node.1 hst with rfl | ⟨c, hc, hsc⟩
    · exact hrs
    · exact mem_subtrees_node.2 (.inr ⟨c, hc, ih c hc hsc⟩)

lemma mem_subtrees_of_mem_children {s t c : RoseTree α} (hst : s ∈ t.subtrees) (hc : c ∈ s.children) :
    c ∈ t.subtrees := by
  refine mem_subtrees_trans hst ?_
  cases s
  exact mem_subtrees_node.2 (.inr ⟨c, hc, mem_subtrees_self c⟩)

lemma exists_parent {s t : RoseTree α} (hst : s ∈ t.subtrees) (hne : s ≠ t) : ∃ p ∈ t.subtrees, s ∈ p.children := by
  induction t using induction with
  | node a cs ih =>
    rcases mem_subtrees_node.1 hst with heq | ⟨c, hc, hsc⟩
    · exact absurd heq hne
    · by_cases hs : s = c
      · exact ⟨node a cs, mem_subtrees_self _, hs ▸ hc⟩
      · rcases ih c hc hsc hs with ⟨p, hp, hsp⟩
        exact ⟨p, mem_subtrees_node.2 (.inr ⟨c, hc, hp⟩), hsp⟩

/-! ## Breadth-first order -/

mutual

def size : RoseTree α → Nat
  | node _ cs => sizeOfAll cs + 1

def sizeOfAll : List (RoseTree α) → Nat
  | [] => 0
  | c :: cs => size c + sizeOfAll cs

end

lemma sizeOfAll_append (cs ds : List (RoseTree α)) : sizeOfAll (cs ++ ds) = sizeOfAll cs + sizeOfAll ds := by
  induction cs with
  | nil => exact (Nat.zero_add _).symm
  | cons c cs ih => rw [cons_append, sizeOfAll, sizeOfAll, ih, Nat.add_assoc]

/-- The first element of the queue is visited and its children join the end of the queue; `fuel` bounds the
number of visits. -/
def breadthFirstFuel : Nat → List (RoseTree α) → List (RoseTree α)
  | 0, _ => []
  | _ + 1, [] => []
  | fuel + 1, t :: queue => t :: breadthFirstFuel fuel (queue ++ t.children)

/-- The visits that a queue of trees leads to. -/
def breadthFirst (queue : List (RoseTree α)) : List (RoseTree α) := breadthFirstFuel (sizeOfAll queue) queue

lemma breadthFirstFuel_perm (fuel : Nat) (queue : List (RoseTree α)) (h : sizeOfAll queue ≤ fuel) :
    (breadthFirstFuel fuel queue).Perm (queue.flatMap subtrees) := by
  induction fuel generalizing queue with
  | zero =>
    cases queue with
    | nil => exact .nil
    | cons t queue =>
      cases t
      simp only [sizeOfAll, size] at h
      omega
  | succ fuel ih =>
    cases queue with
    | nil => exact .nil
    | cons t queue =>
      cases t with
      | node a cs =>
        have hsize : sizeOfAll (queue ++ cs) ≤ fuel := by
          simp only [sizeOfAll, size] at h
          rw [sizeOfAll_append]
          omega
        rw [breadthFirstFuel, flatMap_cons, subtrees_node, cons_append]
        refine .cons _ ?_
        calc
          (breadthFirstFuel fuel (queue ++ cs)).Perm ((queue ++ cs).flatMap subtrees) := ih _ hsize
          _ = queue.flatMap subtrees ++ cs.flatMap subtrees := flatMap_append
          List.Perm _ (cs.flatMap subtrees ++ queue.flatMap subtrees) := perm_append_comm

lemma breadthFirst_perm : (breadthFirst [t]).Perm t.subtrees := by
  have h := breadthFirstFuel_perm (sizeOfAll [t]) [t] (Nat.le_refl _)
  rwa [flatMap_singleton] at h

/-! ## Changing the labels -/

mutual

def mapLabels (f : α → β) : RoseTree α → RoseTree β
  | node a cs => node (f a) (mapLabelsOfAll f cs)

def mapLabelsOfAll (f : α → β) : List (RoseTree α) → List (RoseTree β)
  | [] => []
  | c :: cs => mapLabels f c :: mapLabelsOfAll f cs

end

section

variable (f : α → β)
include f

lemma mapLabelsOfAll_eq (cs : List (RoseTree α)) : mapLabelsOfAll f cs = cs.map (mapLabels f) := by
  induction cs with
  | nil => rfl
  | cons c cs ih => rw [mapLabelsOfAll, ih, map_cons]

lemma mapLabels_node (cs : List (RoseTree α)) : mapLabels f (node a cs) = node (f a) (cs.map (mapLabels f)) := by
  rw [mapLabels, mapLabelsOfAll_eq]

@[simp] lemma label_mapLabels (t : RoseTree α) : (mapLabels f t).label = f t.label := by
  cases t
  rfl

@[simp] lemma children_mapLabels (t : RoseTree α) : (mapLabels f t).children = t.children.map (mapLabels f) := by
  cases t
  rw [mapLabels_node]
  rfl

lemma subtrees_mapLabels (t : RoseTree α) : (mapLabels f t).subtrees = t.subtrees.map (mapLabels f) := by
  induction t using induction with
  | node a cs ih =>
    rw [mapLabels_node, subtrees_node, subtrees_node, map_cons, mapLabels_node, flatMap_map, map_flatMap]
    refine congrArg _ ?_
    exact congrArg flatten (map_congr_left ih)

end

lemma mapLabels_eq_mapLabels_iff {f g : α → β} {t : RoseTree α} :
    mapLabels f t = mapLabels g t ↔ ∀ s ∈ t.subtrees, f s.label = g s.label := by
  constructor
  · intro h s hs
    have hsubtrees := congrArg subtrees h
    rw [subtrees_mapLabels, subtrees_mapLabels, map_inj_left] at hsubtrees
    have hlabel := congrArg label (hsubtrees s hs)
    rwa [label_mapLabels, label_mapLabels] at hlabel
  · intro h
    induction t using induction with
    | node a cs ih =>
      rw [mapLabels_node, mapLabels_node]
      have hlabel : f a = g a := h _ (mem_subtrees_self _)
      have hchildren : cs.map (mapLabels f) = cs.map (mapLabels g) :=
        map_congr_left fun c hc => ih c hc fun s hs => h s (mem_subtrees_node.2 (.inr ⟨c, hc, hs⟩))
      rw [hlabel, hchildren]

lemma mapLabels_congr {f g : α → β} {t : RoseTree α} (h : ∀ s ∈ t.subtrees, f s.label = g s.label) :
    mapLabels f t = mapLabels g t := mapLabels_eq_mapLabels_iff.2 h

lemma mapLabels_id : mapLabels id t = t := by
  induction t using induction with
  | node a cs ih =>
    rw [mapLabels_node]
    have hchildren : cs.map (mapLabels id) = cs.map id := map_congr_left ih
    rw [hchildren, map_id]
    rfl

lemma mapLabels_mapLabels {γ : Type*} (f : α → β) (g : β → γ) (t : RoseTree α) :
    mapLabels g (mapLabels f t) = mapLabels (g ∘ f) t := by
  induction t using induction with
  | node a cs ih =>
    rw [mapLabels_node, mapLabels_node, mapLabels_node, map_map]
    exact congrArg _ (map_congr_left ih)

lemma subtrees_sublist {s t : RoseTree α} (h : s ∈ t.subtrees) : s.subtrees.Sublist t.subtrees := by
  induction t using induction with
  | node a cs ih =>
    rcases mem_subtrees_node.1 h with rfl | ⟨c, hc, hs⟩
    · exact .refl _
    · rw [subtrees_node]
      exact ((ih c hc hs).trans (sublist_flatten_of_mem (mem_map_of_mem hc))).cons _

/-! ## Bottom-up relabelling -/

mutual

/-- The children first, then the node from its label and the new labels of its children. -/
def relabel (f : α → List β → Option β) : RoseTree α → Option (RoseTree β)
  | node a cs => do
    let newChildren ← relabelAll f cs
    let b ← f a (newChildren.map label)
    some (node b newChildren)

def relabelAll (f : α → List β → Option β) : List (RoseTree α) → Option (List (RoseTree β))
  | [] => some []
  | c :: cs => do
    let newChild ← relabel f c
    let newChildren ← relabelAll f cs
    some (newChild :: newChildren)

end

lemma exists_forall₂ {P : α → β → Prop} {l : List α} (h : ∀ a ∈ l, ∃ b, P a b) : ∃ l', List.Forall₂ P l l' := by
  induction l with
  | nil => exact ⟨[], .nil⟩
  | cons a l ih =>
    rcases h a mem_cons_self with ⟨b, hb⟩
    rcases ih fun a' ha' => h a' (mem_cons_of_mem a ha') with ⟨l', hl'⟩
    exact ⟨b :: l', .cons hb hl'⟩

/-- The outcome of a relabelling: the same shape, and each new label is what the function makes of the old one and
the new labels below it. -/
inductive Relabelled (f : α → List β → Option β) : RoseTree α → RoseTree β → Prop where
  | node (a : α) (cs : List (RoseTree α)) (b : β) (ds : List (RoseTree β)) :
      List.Forall₂ (Relabelled f) cs ds → f a (ds.map label) = some b → Relabelled f (node a cs) (node b ds)

section

variable {f : α → List β → Option β}

lemma relabelAll_eq_some {ds : List (RoseTree β)} :
    relabelAll f cs = some ds ↔ List.Forall₂ (fun c d => relabel f c = some d) cs ds := by
  induction cs generalizing ds with
  | nil =>
    rw [relabelAll, forall₂_nil_left_iff]
    constructor
    · intro h
      exact (Option.some.inj h).symm
    · rintro rfl
      rfl
  | cons c cs ih =>
    rw [relabelAll, forall₂_cons_left_iff]
    constructor
    · intro h
      rcases Option.bind_eq_some_iff.1 h with ⟨d, hd, h⟩
      rcases Option.bind_eq_some_iff.1 h with ⟨ds', hds', h⟩
      exact ⟨d, ds', hd, ih.1 hds', (Option.some.inj h).symm⟩
    · rintro ⟨d, ds', hd, hds', rfl⟩
      rw [hd, ih.2 hds']
      rfl

lemma relabel_node_eq_some {a : α} {t : RoseTree β} : relabel f (node a cs) = some t ↔
      ∃ b ds, List.Forall₂ (fun c d => relabel f c = some d) cs ds ∧ f a (ds.map label) = some b ∧ t = node b ds := by
  constructor
  · intro h
    rcases Option.bind_eq_some_iff.1 h with ⟨ds, hds, h⟩
    rcases Option.bind_eq_some_iff.1 h with ⟨b, hb, h⟩
    exact ⟨b, ds, relabelAll_eq_some.1 hds, hb, (Option.some.inj h).symm⟩
  · rintro ⟨b, ds, hds, hb, rfl⟩
    exact Option.bind_eq_some_iff.2 ⟨ds, relabelAll_eq_some.2 hds, Option.bind_eq_some_iff.2 ⟨b, hb, rfl⟩⟩

lemma relabel_eq_some_iff {s : RoseTree α} {t : RoseTree β} : relabel f s = some t ↔ Relabelled f s t := by
  induction s using induction generalizing t with
  | node a cs ih =>
    have hall : ∀ ds, List.Forall₂ (fun c d => relabel f c = some d) cs ds ↔ List.Forall₂ (Relabelled f) cs ds := by
      intro ds
      induction cs generalizing ds with
      | nil => rw [forall₂_nil_left_iff, forall₂_nil_left_iff]
      | cons c cs ihcs =>
        have hhead := fun d => ih c mem_cons_self (t := d)
        have htail := ihcs fun c' hc' => ih c' (mem_cons_of_mem c hc')
        simp only [forall₂_cons_left_iff, hhead, htail]
    rw [relabel_node_eq_some]
    constructor
    · rintro ⟨b, ds, hds, hb, rfl⟩
      exact .node a cs b ds ((hall ds).1 hds) hb
    · intro h
      cases h with
      | node _ _ b ds hds hb => exact ⟨b, ds, (hall ds).2 hds, hb, rfl⟩

end

namespace Relabelled

variable {f : α → List β → Option β} {s : RoseTree α}

/-- To prove a relation between every tree and its relabelling, prove it for a node whose children satisfy it. -/
lemma induction {motive : RoseTree α → RoseTree β → Prop}
    (node : ∀ a cs b ds, List.Forall₂ (Relabelled f) cs ds → List.Forall₂ motive cs ds →
      f a (ds.map label) = some b → motive (.node a cs) (.node b ds))
    {t : RoseTree β} (h : Relabelled f s t) : motive s t :=
  @Relabelled.rec α β f (fun s t _ => motive s t) (fun cs ds _ => List.Forall₂ motive cs ds)
    (fun a cs b ds hds hb ih => node a cs b ds hds ih hb) .nil (fun _ _ hc hcs => .cons hc hcs) s t h

/-- The subtrees of the outcome are the relabellings of the subtrees at the same places. -/
lemma subtrees {t : RoseTree β} (h : Relabelled f s t) : List.Forall₂ (Relabelled f) s.subtrees t.subtrees := by
  refine induction (motive := fun s t => List.Forall₂ (Relabelled f) s.subtrees t.subtrees) ?_ h
  intro a cs b ds hds ih hb
  rw [subtrees_node, subtrees_node]
  refine .cons (.node a cs b ds hds hb) ?_
  rw [flatMap_def, flatMap_def]
  exact rel_flatten (forall₂_map_left_iff.2 (forall₂_map_right_iff.2 ih))

lemma exists_of_mem_subtrees {t t' : RoseTree β} (h : Relabelled f s t) (ht' : t' ∈ t.subtrees) :
    ∃ s' ∈ s.subtrees, Relabelled f s' t' := by
  rcases getElem_of_mem ht' with ⟨i, hi, rfl⟩
  have hi' : i < s.subtrees.length := h.subtrees.length_eq ▸ hi
  exact ⟨_, getElem_mem hi', (forall₂_iff_get.1 h.subtrees).2 i hi' hi⟩

lemma exists_mem_subtrees {s s' : RoseTree α} {t : RoseTree β} (h : Relabelled f s t) (hs' : s' ∈ s.subtrees) :
    ∃ t' ∈ t.subtrees, Relabelled f s' t' := by
  rcases getElem_of_mem hs' with ⟨i, hi, rfl⟩
  have hi' : i < t.subtrees.length := h.subtrees.length_eq ▸ hi
  exact ⟨_, getElem_mem hi', (forall₂_iff_get.1 h.subtrees).2 i hi hi'⟩

end Relabelled

end RoseTree

end MobilityNebula.Library
