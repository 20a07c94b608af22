/-!
# Stable ordering

Lists kept in order by repeated insertion. An element goes behind everything it does not strictly
precede, so equals stay in the order of their arrival. Only the strict comparison is asked for, and
whatever it says nothing is lost or doubled (`sortStable_perm`).
-/
namespace FlowAdmission
variable {α : Type}

/-- Puts `a` in front of the first element that it precedes. -/
def insertStable (precedes : α → α → Bool) (a : α) : List α → List α
  | [] => [a]
  | b :: rest => if precedes a b then a :: b :: rest else b :: insertStable precedes a rest

/-- The elements in order, equals as they stood. -/
def sortStable (precedes : α → α → Bool) (xs : List α) : List α :=
  xs.foldl (fun sorted a => insertStable precedes a sorted) []

theorem insertStable_perm (precedes : α → α → Bool) (a : α) (xs : List α) :
    (insertStable precedes a xs).Perm (a :: xs) := by
  induction xs with
  | nil => exact .refl _
  | cons b rest ih =>
    unfold insertStable
    split
    · exact .refl _
    · exact (ih.cons b).trans (.swap a b rest)

/-- A sorted list stays sorted when the comparison agrees with the order at the new element. -/
theorem insertStable_pairwise {order : α → α → Prop} {precedes : α → α → Bool} {a : α}
    {xs : List α} (trans : ∀ {x y z}, order x y → order y z → order x z)
    (before : ∀ b ∈ xs, precedes a b → order a b) (behind : ∀ b ∈ xs, ¬precedes a b → order b a)
    (sorted : xs.Pairwise order) : (insertStable precedes a xs).Pairwise order := by
  induction xs with
  | nil => exact List.pairwise_singleton order a
  | cons b rest ih =>
    obtain ⟨first, later⟩ := List.pairwise_cons.mp sorted
    obtain ⟨before_b, before⟩ := List.forall_mem_cons.mp before
    obtain ⟨behind_b, behind⟩ := List.forall_mem_cons.mp behind
    unfold insertStable
    split
    · rename_i precedes_b
      refine List.pairwise_cons.mpr ⟨?_, sorted⟩
      exact List.forall_mem_cons.mpr
        ⟨before_b precedes_b, fun c mem => trans (before_b precedes_b) (first c mem)⟩
    · rename_i not_before
      refine List.pairwise_cons.mpr ⟨fun c mem => ?_, ih before behind later⟩
      rcases List.mem_cons.mp ((insertStable_perm precedes a rest).mem_iff.mp mem) with rfl | old
      · exact behind_b not_before
      · exact first c old

theorem sortStable_perm (precedes : α → α → Bool) (xs : List α) :
    (sortStable precedes xs).Perm xs := by
  have inserted : ∀ ys, (xs.foldl (fun sorted a => insertStable precedes a sorted) ys).Perm
      (xs ++ ys) := by
    induction xs with
    | nil => exact fun ys => .refl ys
    | cons a rest ih =>
      intro ys
      refine (ih _).trans (((insertStable_perm precedes a ys).append_left rest).trans ?_)
      exact List.perm_middle
  simpa [sortStable] using inserted []

end FlowAdmission
