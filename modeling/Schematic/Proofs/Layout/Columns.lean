import Schematic.Layout.Placement
import Schematic.Proofs.Levels

/-!
# The columns of a drawing

A column holds the nodes of its level, each once (`mem_members_iff`, `nodup_ids`). The levels of
the columns rise (`pairwise_level_columns`), so no node is in two of them (`disjoint_columns`), and
every node is in one (`exists_column`), with the other columns before and behind it
(`exists_split`).
-/

namespace Schematic.Layout

variable {α : Type} {metrics : List (Metrics α)} {column : Column α}

/-- The levels of the columns rise from left to right. -/
theorem pairwise_level_columns (metrics : List (Metrics α)) :
    (columns metrics).Pairwise fun left right => left.level < right.level :=
  List.pairwise_map.2 (Levels.pairwise_group _)

/-- A column holds the nodes of its level in the order of their numbers. -/
theorem members_eq (h : column ∈ columns metrics) :
    column.members = (metrics.zipIdx.filter (·.1.level = column.level)).map fun (m, id) =>
      (id, m) := by
  obtain ⟨group, hgroup, rfl⟩ := List.mem_map.1 h
  refine (Levels.snd_of_mem_group hgroup).trans ?_
  rw [List.filter_map, List.map_map]
  rfl

theorem mem_members_iff (h : column ∈ columns metrics) {id : NodeId} {m : Metrics α} :
    (id, m) ∈ column.members ↔ metrics[id]? = some m ∧ m.level = column.level := by
  simp only [members_eq h, List.mem_map, List.mem_filter, Prod.exists, Prod.mk.injEq,
    List.mk_mem_zipIdx_iff_getElem?, decide_eq_true_eq]
  constructor
  · rintro ⟨_, _, hm, rfl, rfl⟩
    exact hm
  · intro hm
    exact ⟨m, id, hm, rfl, rfl⟩

theorem mem_ids_iff (h : column ∈ columns metrics) {id : NodeId} :
    id ∈ column.ids ↔ ∃ m, metrics[id]? = some m ∧ m.level = column.level := by
  simp only [Column.ids, List.mem_map, Prod.exists, mem_members_iff h]
  constructor
  · rintro ⟨_, m, hm, rfl⟩
    exact ⟨m, hm⟩
  · rintro ⟨m, hm⟩
    exact ⟨id, m, hm, rfl⟩

theorem lt_of_mem_ids (h : column ∈ columns metrics) {id : NodeId} (hid : id ∈ column.ids) :
    id < metrics.length := by
  obtain ⟨m, hm, -⟩ := (mem_ids_iff h).1 hid
  exact (List.getElem?_eq_some_iff.1 hm).1

theorem ids_eq (h : column ∈ columns metrics) :
    column.ids = (metrics.zipIdx.filter (·.1.level = column.level)).map (·.2) := by
  rw [Column.ids, members_eq h, List.map_map]
  rfl

/-- A column holds a node once. -/
theorem nodup_ids (h : column ∈ columns metrics) : column.ids.Nodup := by
  have hall : (metrics.zipIdx.map (·.2)).Nodup := by
    rw [List.zipIdx_map_snd]
    exact List.nodup_range'
  rw [ids_eq h]
  exact (List.filter_sublist.map _).nodup hall

/-- Every node is in a column. -/
theorem exists_column {id : NodeId} {m : Metrics α} (h : metrics[id]? = some m) :
    ∃ column ∈ columns metrics, column.level = m.level ∧ id ∈ column.ids := by
  have hlevel : m.level ∈ (columns metrics).map (·.level) := by
    rw [columns, List.map_map]
    refine Levels.mem_levels_group.2 (List.mem_map.2 ⟨(m.level, (id, m)), ?_, rfl⟩)
    exact List.mem_map.2 ⟨(m, id), List.mk_mem_zipIdx_iff_getElem?.2 h, rfl⟩
  obtain ⟨column, hcolumn, heq⟩ := List.mem_map.1 hlevel
  exact ⟨column, hcolumn, heq, (mem_ids_iff hcolumn).2 ⟨m, h, heq.symm⟩⟩

/-- No node is in two columns. -/
theorem disjoint_columns (metrics : List (Metrics α)) :
    (columns metrics).Pairwise fun left right => ∀ id ∈ left.ids, id ∉ right.ids := by
  refine (pairwise_level_columns metrics).imp_of_mem fun hleft hright hlt id hidl hidr => ?_
  obtain ⟨m, hm, hl⟩ := (mem_ids_iff hleft).1 hidl
  obtain ⟨m', hm', hr⟩ := (mem_ids_iff hright).1 hidr
  obtain rfl := Option.some.inj (hm.symm.trans hm')
  omega

/-- Before a column stand those of lower levels and behind it those of higher ones, and none of them
holds a node of it. -/
theorem exists_split (h : column ∈ columns metrics) :
    ∃ before after, columns metrics = before ++ column :: after ∧
      (∀ earlier ∈ before, earlier.level < column.level ∧ ∀ id ∈ column.ids, id ∉ earlier.ids) ∧
      ∀ later ∈ after, column.level < later.level ∧ ∀ id ∈ column.ids, id ∉ later.ids := by
  obtain ⟨before, after, heq⟩ := List.append_of_mem h
  have hrises := pairwise_level_columns metrics
  have hdisjoint := disjoint_columns metrics
  rw [heq, List.pairwise_append, List.pairwise_cons] at hrises hdisjoint
  refine ⟨before, after, heq, fun earlier hearlier => ⟨?_, fun id hid hmem => ?_⟩,
    fun later hlater => ⟨hrises.2.1.1 later hlater, hdisjoint.2.1.1 later hlater⟩⟩
  · exact hrises.2.2 earlier hearlier column List.mem_cons_self
  · exact hdisjoint.2.2 earlier hearlier column List.mem_cons_self id hmem hid

/-- The largest fan-in of a column is that of its level. -/
theorem fanIn_eq (h : column ∈ columns metrics) :
    column.fanIn = Levels.highest ((metrics.filter (·.level = column.level)).map (·.fanIn)) := by
  have hfilter : (metrics.zipIdx.map (·.1)).filter (·.level = column.level) =
      (metrics.zipIdx.filter (·.1.level = column.level)).map (·.1) := List.filter_map ..
  rw [List.zipIdx_map_fst] at hfilter
  rw [hfilter, List.map_map, Column.fanIn, members_eq h, List.map_map]
  rfl

end Schematic.Layout
