import Mathlib.Data.List.Perm.Subperm
import Schematic.Proofs.Evaluation.Visit
import Schematic.Proofs.Layout.Arena

/-!
# Diagrams without cycles

Where no node depends on itself, a way down through operands meets no node twice, so it is no longer
than there are nodes (`Diagram.Acyclic.shallow`). So the depth limit of an evaluation is never
reached, and what a node reads may be worked out by recursion (`Diagram.Acyclic.wellFounded`).
-/

namespace Schematic.Diagram

open Evaluation Relation

variable {α : Type} {diagram : Diagram α}

/-- No node depends on itself, be it directly or through other nodes. A node that does not exist
reads nothing, so it is on no cycle. -/
def Acyclic (diagram : Diagram α) : Prop := ∀ id, ¬ TransGen diagram.HasInput id id

/-- A ranking that falls from every node to what it reads leaves no room for a cycle. -/
theorem acyclic_of_rank (rank : NodeId → Nat)
    (h : ∀ id input, diagram.HasInput id input → rank input < rank id) : diagram.Acyclic := by
  intro id hcycle
  have hfalls : ∀ {above below}, TransGen diagram.HasInput above below →
      rank below < rank above := by
    intro above below hway
    induction hway with
    | single hinput => exact h _ _ hinput
    | tail _ hinput ih => exact Nat.lt_trans (h _ _ hinput) ih
  exact Nat.lt_irrefl _ (hfalls hcycle)

/-- Below a node with so many others over it there are at most as many as are left. -/
theorem Acyclic.shallow_of_path (h : diagram.Acyclic) {depth : Nat} {id : NodeId}
    {path : List NodeId} (hnodup : path.Nodup)
    (hpath : ∀ above ∈ path, above < diagram.nodes.size ∧ TransGen diagram.HasInput above id)
    (hdepth : diagram.nodes.size < path.length + depth) : Shallow diagram.nodes depth id := by
  induction depth generalizing id path with
  | zero =>
    have hsubset : path ⊆ List.range diagram.nodes.size :=
      fun above habove => List.mem_range.2 (hpath above habove).1
    have hle := (List.subperm_of_subset hnodup hsubset).length_le
    rw [List.length_range] at hle
    omega
  | succ depth ih =>
    intro node hnode input hinput
    have hreads : diagram.HasInput id input := ⟨node, hnode, hinput⟩
    have hnew : id ∉ path := fun hmem => h id (hpath id hmem).2
    refine ih (List.nodup_cons.2 ⟨hnew, hnodup⟩) (List.forall_mem_cons.2 ⟨?_, ?_⟩) ?_
    · exact ⟨(Array.getElem?_eq_some_iff.1 hnode).1, .single hreads⟩
    · exact fun above habove => ⟨(hpath above habove).1, (hpath above habove).2.tail hreads⟩
    · rw [List.length_cons]
      omega

/-- The depth limit is never reached. -/
theorem Acyclic.shallow (h : diagram.Acyclic) (id : NodeId) :
    Shallow diagram.nodes (depthLimit diagram.nodes) id := by
  refine h.shallow_of_path List.nodup_nil (List.forall_mem_nil _) ?_
  rw [depthLimit, List.length_nil, Nat.zero_add]
  exact Nat.lt_succ_self _

theorem acc_of_shallow {depth : Nat} {id : NodeId} (h : Shallow diagram.nodes depth id) :
    Acc (fun input id => diagram.HasInput id input) id := by
  induction depth generalizing id with
  | zero => exact h.elim
  | succ depth ih =>
    refine .intro id fun input hreads => ?_
    obtain ⟨node, hnode, hinput⟩ := hreads
    exact ih (h node hnode input hinput)

/-- Whoever goes from nodes to what they read comes to an end. -/
theorem Acyclic.wellFounded (h : diagram.Acyclic) :
    WellFounded fun input id => diagram.HasInput id input :=
  ⟨fun id => acc_of_shallow (h.shallow id)⟩

end Schematic.Diagram
