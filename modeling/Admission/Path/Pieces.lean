/-!
# The pieces of a path

A path text is cut at its slashes. The cut keeps empty pieces and dots: what they mean is for the
reader of the pieces to say, and the two readers of this library differ on `..`.
-/
namespace Admission.Path

/-- What stands between two slashes. -/
abbrev Piece := List Char

/-- The pieces between the slashes of a text; a text without slash is one piece. -/
def pieces : List Char → List Piece
  | [] => [[]]
  | c :: rest =>
    if c = '/' then [] :: pieces rest
    else match pieces rest with
      | [] => [[c]]
      | p :: ps => (c :: p) :: ps

theorem pieces_ne_nil (cs : List Char) : pieces cs ≠ [] := by
  induction cs with
  | nil => simp [pieces]
  | cons c rest ih =>
    unfold pieces
    split
    · simp
    · split <;> simp

/-- The pieces of two texts with a slash between them are the pieces of each. -/
theorem pieces_append_slash (r s : List Char) :
    pieces (r ++ '/' :: s) = pieces r ++ pieces s := by
  induction r with
  | nil => simp [pieces]
  | cons c rest ih =>
    by_cases hc : c = '/'
    · simp [pieces, hc, ih]
    · have hne := pieces_ne_nil rest
      simp only [List.cons_append, pieces, hc, if_false, ih]
      cases hp : pieces rest with
      | nil => exact absurd hp hne
      | cons p ps => simp

/-- No piece holds a slash. -/
theorem slash_not_mem_of_mem_pieces {cs : List Char} {p : Piece} (h : p ∈ pieces cs) :
    '/' ∉ p := by
  induction cs generalizing p with
  | nil => simp [pieces] at h; simp [h]
  | cons c rest ih =>
    unfold pieces at h
    split at h
    · rcases List.mem_cons.mp h with rfl | h
      · simp
      · exact ih h
    · rename_i hc
      split at h
      · simp at h; subst h; simpa using Ne.symm hc
      · rename_i q qs hq
        rcases List.mem_cons.mp h with rfl | h
        · have := ih (p := q) (by simp [hq])
          simp only [List.mem_cons, not_or]
          exact ⟨Ne.symm hc, this⟩
        · exact ih (by simp [hq, h])

end Admission.Path
