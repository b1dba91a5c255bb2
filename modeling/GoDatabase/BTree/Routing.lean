import GoDatabase.BTree.Pages

namespace GoDatabase

section Routing

variable {x k : Bytes} {keys : List Bytes}

theorem childIndex_cons_of_lt (below : bytesCompare x k = .lt) : childIndex x (k :: keys) = 0 := by
  simp [childIndex, List.findIdx?_cons, ordering_beq_iff.mpr below]

theorem childIndex_cons_of_not_lt (notBelow : bytesCompare x k ≠ .lt) :
    childIndex x (k :: keys) = childIndex x keys + 1 := by
  have skip : (bytesCompare x k == .lt) = false := Bool.eq_false_iff.mpr fun hit => notBelow (ordering_beq_iff.mp hit)
  simp only [childIndex, List.findIdx?_cons, skip, Bool.false_eq_true, if_false, List.findIdx?_succ, List.length_cons]
  cases keys.findIdx? (fun k => bytesCompare x k == .lt) <;> rfl

/-- On increasing keys the rule of `findLeaf` sends a separator to the child right after it. -/
theorem childIndex_self : ∀ {keys : List Bytes}, Increasing keys → ∀ {j : Nat} (inside : j < keys.length),
    childIndex (keys.get ⟨j, inside⟩) keys = j + 1
  | [], _, _, inside => absurd inside (Nat.not_lt_zero _)
  | k :: rest, increasing, 0, _ => by
    obtain ⟨above, -⟩ := List.pairwise_cons.mp increasing
    show childIndex k (k :: rest) = 1
    rw [childIndex_cons_of_not_lt (by simp [bytesCompare_self])]
    cases rest with
    | nil => rfl
    | cons k' rest' => rw [childIndex_cons_of_lt (above k' (List.mem_cons_self _ _))]
  | k :: rest, increasing, j + 1, inside => by
    obtain ⟨above, restIncreasing⟩ := List.pairwise_cons.mp increasing
    have member : rest.get ⟨j, Nat.lt_of_succ_lt_succ inside⟩ ∈ rest := List.get_mem _ _ _
    have after : bytesCompare (rest.get ⟨j, Nat.lt_of_succ_lt_succ inside⟩) k ≠ .lt := by
      rw [bytesCompare_swap, above _ member]; decide
    rw [List.get_cons_succ, childIndex_cons_of_not_lt after, childIndex_self restIncreasing]

end Routing

/-- The `Split` of an internal node cuts its pointers at the same index as its keys, so the left
half keeps one pointer too few: for a laid-out internal node with two keys or more, increasing
keys and one pointer more than keys, the left half has as many pointers as keys while the right
half has one more, and the last key of the left half, which is below the promoted key, is sent
by `findLeaf`'s rule to a child in the original node and past the last pointer of the left
half. -/
theorem internal_split_drops_child {pointers : List Nat} {es : List (Bytes × Bytes)} (two : 2 ≤ es.length)
    (fits : (pageData es).length < 65536) (increasing : Increasing (es.map Prod.fst))
    (counted : pointers.length = es.length + 1) :
    ∃ left right promoted, (Node.ofEntries bnodeNode pointers es).split = .ok (some (left, right, promoted)) ∧
      left.pointers.length = left.nkeys ∧ right.pointers.length = right.nkeys + 1 ∧
      ∃ x keys leftKeys, (Node.ofEntries bnodeNode pointers es).keys = .ok keys ∧ left.keys = .ok leftKeys ∧
        bytesCompare x promoted = .lt ∧ ((Node.ofEntries bnodeNode pointers es).pointers[childIndex x keys]?).isSome ∧
        left.pointers[childIndex x leftKeys]? = none := by
  have half : 1 ≤ es.length / 2 := by omega
  have below : es.length / 2 < es.length := by omega
  have split := @Node.split_ofEntries bnodeNode pointers es two fits fun _ => by omega
  simp only [if_true] at split
  have frontFits : (pageData (es.take (es.length / 2))).length < 65536 := by
    have whole := congrArg List.length (pageData_take_drop es (es.length / 2))
    simp only [List.length_append] at whole
    omega
  have leftIncreasing : Increasing ((es.take (es.length / 2)).map Prod.fst) :=
    increasing.sublist ((List.take_sublist _ _).map _)
  have lastLeft := childIndex_self leftIncreasing (j := es.length / 2 - 1) (by simp; omega)
  have lastWhole := childIndex_self increasing (j := es.length / 2 - 1) (by simp; omega)
  simp only [List.get_eq_getElem, List.getElem_map, List.getElem_take] at lastLeft lastWhole
  refine ⟨_, _, _, split, by simp; omega, by simp; omega, (es[es.length / 2 - 1]).1, _, _,
    Node.keys_ofEntries fits, Node.keys_ofEntries frontFits, ?_, ?_, ?_⟩
  · have ordered := List.pairwise_iff_getElem.mp increasing (es.length / 2 - 1) (es.length / 2) (by simp; omega)
      (by simp; omega) (by omega)
    simp only [List.getElem_map] at ordered
    exact ordered
  · rw [lastWhole, Nat.sub_add_cancel half, Node.ofEntries_pointers, List.getElem?_eq_getElem (by omega)]
    rfl
  · rw [lastLeft, Nat.sub_add_cancel half]
    simp

theorem internal_split_drops_child_at_a_b :
    ∃ left right promoted,
      (Node.ofEntries bnodeNode [1, 2, 3] [(ascii "a", []), (ascii "b", [])]).split = .ok (some (left, right, promoted)) ∧
        left.pointers.length = left.nkeys ∧ right.pointers.length = right.nkeys + 1 := by
  obtain ⟨left, right, promoted, split, short, enough, -⟩ :=
    @internal_split_drops_child [1, 2, 3] [(ascii "a", []), (ascii "b", [])] (by decide) (by decide) (by decide)
      (by decide)
  exact ⟨left, right, promoted, split, short, enough⟩

end GoDatabase
