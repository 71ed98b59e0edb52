import Admission.Path.Home

/-!
# Canonical paths

What a typed text denotes: an absolute path below the single root, without empty pieces and dots,
where `..` takes back the piece before it and is lost at the root. The file system is not asked.
-/
namespace Admission.Path

/-- The names reached by one more piece: `..` goes up, an empty piece or a dot stays. -/
def descend (names : List Piece) (p : Piece) : List Piece :=
  if p = [] ∨ p = ['.'] then names
  else if p = ['.', '.'] then names.dropLast
  else names ++ [p]

/-- The names that pieces lead to from the root. -/
def resolve (ps : List Piece) : List Piece := ps.foldl descend []

/-- The characters of the absolute path with these names. -/
def absolute (names : List Piece) : List Char :=
  if names.isEmpty then ['/'] else names.flatMap ('/' :: ·)

/-- The canonical form of a text without home shorthand. -/
def canonicalChars (cs : List Char) : List Char := absolute (resolve (pieces cs))

/-- The canonical path of a typed text, or `none` if it needs the home directory and that is
unknown. -/
def canonical (home raw : String) : Option String :=
  (expandHome home raw).map fun s => String.ofList (canonicalChars s.toList)

/-- A name that a canonical path may hold. -/
def IsName (p : Piece) : Prop := p ≠ [] ∧ p ≠ ['.'] ∧ p ≠ ['.', '.'] ∧ '/' ∉ p

theorem resolve_append (ps qs : List Piece) :
    resolve (ps ++ qs) = qs.foldl descend (resolve ps) := by
  simp [resolve]

theorem descend_of_isName {names : List Piece} {p : Piece} (h : IsName p) :
    descend names p = names ++ [p] := by
  obtain ⟨h0, h1, h2, _⟩ := h
  simp [descend, h0, h1, h2]

/-- Names are all that pieces without slashes lead to. -/
theorem isName_of_mem_foldl {ps names : List Piece} (hp : ∀ p ∈ ps, '/' ∉ p)
    (hn : ∀ p ∈ names, IsName p) : ∀ p ∈ ps.foldl descend names, IsName p := by
  induction ps generalizing names with
  | nil => simpa using hn
  | cons q qs ih =>
    refine ih (fun p h => hp p (List.mem_cons_of_mem _ h)) ?_
    intro p h
    unfold descend at h
    split at h
    · exact hn p h
    · split at h
      · exact hn p ((List.dropLast_sublist _).subset h)
      · rename_i h1 h2
        rcases List.mem_append.mp h with h | h
        · exact hn p h
        · simp at h
          subst h
          simp only [not_or] at h1
          exact ⟨h1.1, h1.2, h2, hp _ (by simp)⟩

theorem isName_of_mem_resolve {cs : List Char} : ∀ p ∈ resolve (pieces cs), IsName p :=
  isName_of_mem_foldl (fun _ h => slash_not_mem_of_mem_pieces h) (by simp)

end Admission.Path
