import Admission.Proofs.Path.FixedPoints
import Mathlib.Data.List.Infix

/-!
# Texts that start with a tilde

A tilde that stands alone or before a separator stands for the home directory, and so does one
before a line feed that ends the text. In any other text it begins a name, and that name is the
first one of the canonical path unless the pieces below it climb out of it. Where the home directory
is, and whether there is one, is of no account then.
-/
namespace Admission.Path

variable {home raw : String} {l : Location} {names ps : List Piece} {name p : Piece}
  {rest : List Char}

/-! ## What counts as the shorthand -/

/-- A tilde that stands alone or before a separator. -/
def IsShorthand (raw : String) : Prop :=
  raw = "~" ∨ ['~', '/'] <+: raw.toList ∨ ['~', '\\'] <+: raw.toList

instance : Decidable (IsShorthand raw) :=
  inferInstanceAs (Decidable (raw = "~" ∨ ['~', '/'] <+: raw.toList ∨ ['~', '\\'] <+: raw.toList))

theorem endsShorthand_iff :
    endsShorthand rest = true ↔
      rest = [] ∨ rest = ['\n'] ∨ ['/'] <+: rest ∨ ['\\'] <+: rest := by
  unfold endsShorthand
  split
  · simp
  · simp
  · rename_i c cs hline
    have hline : c :: cs ≠ ['\n'] := by simpa using hline
    simp [hline, List.cons_prefix_cons, eq_comm (b := c)]

/-- Besides the shorthand there is one more text that the home directory is looked for in: a tilde
and a line feed. -/
theorem needsHome_iff : NeedsHome raw ↔ IsShorthand raw ∨ raw = "~\n" := by
  have halone : raw = "~" ↔ raw.toList = ['~'] := String.toList_inj.symm
  have hline : raw = "~\n" ↔ raw.toList = ['~', '\n'] := String.toList_inj.symm
  rw [NeedsHome, IsShorthand, halone, hline]
  constructor
  · rintro ⟨rest, hraw, hends⟩
    rw [hraw]
    rcases endsShorthand_iff.mp hends with rfl | rfl | hslash | hback
    · exact .inl (.inl rfl)
    · exact .inr rfl
    · exact .inl (.inr (.inl (List.cons_prefix_cons.mpr ⟨rfl, hslash⟩)))
    · exact .inl (.inr (.inr (List.cons_prefix_cons.mpr ⟨rfl, hback⟩)))
  · rintro ((hraw | ⟨rest, hraw⟩ | ⟨rest, hraw⟩) | hraw)
    · exact ⟨[], hraw, rfl⟩
    · exact ⟨'/' :: rest, hraw.symm, rfl⟩
    · exact ⟨'\\' :: rest, hraw.symm, rfl⟩
    · exact ⟨['\n'], hraw, rfl⟩

/-! ## Pieces that climb -/

/-- How many names longer a walk gets by a piece, where there is a name to go up from. -/
def gain (p : Piece) : Int :=
  if p = [] ∨ p = ['.'] then 0
  else if p = ['.', '.'] then -1
  else 1

def height (ps : List Piece) : Int := ps.foldl (fun n p => n + gain p) 0

/-- Whether, after some of the pieces, more of them have gone up than down. -/
def ClimbsOut (ps : List Piece) : Prop := ∃ qs ∈ ps.inits, height qs < 0

instance : Decidable (ClimbsOut ps) :=
  inferInstanceAs (Decidable (∃ qs ∈ ps.inits, height qs < 0))

theorem height_concat : height (ps ++ [p]) = height ps + gain p := by simp [height]

theorem climbsOut_concat :
    ClimbsOut (ps ++ [p]) ↔ ClimbsOut ps ∨ height (ps ++ [p]) < 0 := by
  simp [ClimbsOut]

theorem resolve_concat : resolve (ps ++ [p]) = descend (resolve ps) p := by simp [resolve]

/-- A piece that takes back no more than there is leaves the names above alone. -/
theorem descend_append (h : 0 ≤ names.length + gain p) (above : List Piece) :
    descend (above ++ names) p = above ++ descend names p ∧
      (descend names p).length = names.length + gain p := by
  unfold gain at h ⊢
  unfold descend
  split
  · simp
  · rename_i hmoves
    rw [if_neg hmoves] at h
    split
    · rename_i hup
      rw [if_pos hup] at h
      have hne : names ≠ [] := by rintro rfl; simp at h
      have hpos : 0 < names.length := List.length_pos_iff.mpr hne
      refine ⟨List.dropLast_append_of_ne_nil hne, ?_⟩
      rw [List.length_dropLast]
      omega
    · simp

/-- Pieces that do not climb out go on from where they start as they go on from the root. -/
theorem foldl_descend_of_not_climbsOut (h : ¬ ClimbsOut ps) :
    (∀ above, ps.foldl descend above = above ++ resolve ps) ∧
      (resolve ps).length = height ps := by
  induction ps using List.reverseRecOn with
  | nil => exact ⟨fun above => (List.append_nil above).symm, rfl⟩
  | append_singleton ps p ih =>
    rw [climbsOut_concat, not_or, height_concat] at h
    obtain ⟨hwalk, hlength⟩ := ih h.1
    have hroom : 0 ≤ (resolve ps).length + gain p := by omega
    refine ⟨fun above => ?_, ?_⟩
    · rw [List.foldl_concat, hwalk, (descend_append hroom above).1, resolve_concat]
    · rw [resolve_concat, (descend_append hroom []).2, hlength, height_concat]

/-- Pieces that climb out of a name leave nothing of it. -/
theorem foldl_descend_of_climbsOut (h : ClimbsOut ps) (name : Piece) :
    ps.foldl descend [name] = resolve ps := by
  induction ps using List.reverseRecOn with
  | nil => exact absurd h (by decide)
  | append_singleton ps p ih =>
    rw [List.foldl_concat, resolve_concat]
    by_cases hbefore : ClimbsOut ps
    · rw [ih hbefore]
    · -- The walk is back at the name, so it is the last piece that goes out of it.
      obtain ⟨hwalk, hlength⟩ := foldl_descend_of_not_climbsOut hbefore
      have hout : height ps + gain p < 0 := by
        rw [← height_concat]
        exact (climbsOut_concat.mp h).resolve_left hbefore
      have hup : p = ['.', '.'] ∧ (resolve ps).length = 0 := by
        unfold gain at hout
        split at hout
        · omega
        · split at hout
          · exact ⟨‹_›, by omega⟩
          · omega
      obtain ⟨rfl, hback⟩ := hup
      rw [hwalk, List.length_eq_zero_iff.mp hback]
      rfl

theorem foldl_descend_singleton :
    ps.foldl descend [name] = if ClimbsOut ps then resolve ps else name :: resolve ps := by
  split
  · exact foldl_descend_of_climbsOut ‹_› name
  · exact (foldl_descend_of_not_climbsOut ‹_›).1 [name]

/-! ## The first piece and what is below it -/

/-- The characters before the first slash. -/
def firstPiece (raw : String) : Piece := raw.toList.takeWhile (· ≠ '/')

/-- The first slash and the characters after it. -/
def belowFirst (raw : String) : List Char := raw.toList.dropWhile (· ≠ '/')

/-- A piece that starts with a tilde is a name. -/
theorem isName_firstPiece (h : raw.toList.head? = some '~') : IsName (firstPiece raw) := by
  have hslash : '/' ∉ firstPiece raw := by
    intro hmem
    simpa using List.mem_takeWhile_imp hmem
  have hhead : (firstPiece raw).head? = some '~' := by
    obtain ⟨cs, hcs⟩ := List.head?_eq_some_iff.mp h
    simp [firstPiece, hcs]
  refine ⟨?_, ?_, ?_, hslash⟩ <;> intro hname <;> simp [hname] at hhead

/-- The pieces below a name go on from it. -/
theorem resolve_pieces_of_firstPiece (h : IsName (firstPiece raw)) :
    resolve (pieces raw.toList) = (pieces (belowFirst raw)).foldl descend [firstPiece raw] := by
  have hsplit : raw.toList = firstPiece raw ++ belowFirst raw :=
    List.takeWhile_append_dropWhile.symm
  have hfirst : resolve (pieces (firstPiece raw)) = [firstPiece raw] := by
    rw [pieces_of_not_mem h.2.2.2]
    exact descend_of_isName h
  cases hbelow : belowFirst raw with
  | nil =>
    rw [hsplit, hbelow, List.append_nil, hfirst]
    rfl
  | cons c cs =>
    obtain rfl : c = '/' := by
      have hc := List.head?_dropWhile_not (· ≠ '/') raw.toList
      rw [← belowFirst, hbelow] at hc
      simpa using hc
    rw [hsplit, hbelow, pieces_append_slash, resolve_append, hfirst]
    rfl

/-! ## The law -/

theorem canonical_of_tilde (hno : ¬ NeedsHome raw) (htilde : raw.toList.head? = some '~') :
    canonical home raw = some (String.ofList (absolute
      (if ClimbsOut (pieces (belowFirst raw)) then resolve (pieces (belowFirst raw))
        else firstPiece raw :: resolve (pieces (belowFirst raw))))) := by
  rw [canonical, expandHome_of_not_needsHome hno, Option.map_some, canonicalChars,
    resolve_pieces_of_firstPiece (isName_firstPiece htilde), foldl_descend_singleton]

/-- Where the home directory is known, its text stands in place of a tilde that stands alone, before
a separator, or before a line feed that ends the text, and what follows the tilde stays. Any other
text stays as it is, whether there is a home directory or not. If it starts with a tilde, then the
piece with the tilde is a name, and the canonical path has it first, before the names that the
pieces below it lead to; but if these climb out of it, the canonical path has their names only. -/
theorem leading_tilde_read (known : homeLocation? home = some l) (raw : String) :
    (IsShorthand raw ∨ raw = "~\n" →
      expandHome home raw = some (l.toText ++ String.ofList raw.toList.tail)) ∧
    (¬ IsShorthand raw → raw ≠ "~\n" → ∀ other, expandHome other raw = some raw ∧
      (raw.toList.head? = some '~' → IsName (firstPiece raw) ∧
        canonical other raw = some (String.ofList (absolute
          (if ClimbsOut (pieces (belowFirst raw)) then resolve (pieces (belowFirst raw))
            else firstPiece raw :: resolve (pieces (belowFirst raw))))))) := by
  constructor
  · intro hneeds
    rw [expandHome_of_needsHome (needsHome_iff.mpr hneeds), known, Option.map_some]
  · intro hother hline other
    have hno : ¬ NeedsHome raw := fun h => (needsHome_iff.mp h).elim hother hline
    exact ⟨expandHome_of_not_needsHome hno,
      fun htilde => ⟨isName_firstPiece htilde, canonical_of_tilde hno htilde⟩⟩

/-- A backslash after the tilde and a line feed at the end; a line feed after the tilde that does
not end the text; and pieces that climb out of a name with a tilde. -/
theorem leading_tilde_read_three_texts :
    homeLocation? "/home//t/" = some ⟨.single, ["home".toList, "t".toList]⟩ ∧
    IsShorthand "~\\a\n" ∧ expandHome "/home//t/" "~\\a\n" = some "/home/t\\a\n" ∧
    ¬ IsShorthand "~\n/a/..//b" ∧ expandHome "~" "~\n/a/..//b" = some "~\n/a/..//b" ∧
    canonical "~" "~\n/a/..//b" = some "/~\n/b" ∧
    ¬ IsShorthand "~u/a/../../../c" ∧ IsName "~u".toList ∧
    canonical "" "~u/a/../../../c" = some "/c" := by
  have known : homeLocation? "/home//t/" = some ⟨.single, ["home".toList, "t".toList]⟩ := by
    decide
  have hback : IsShorthand "~\\a\n" := by decide
  have hline : ¬ IsShorthand "~\n/a/..//b" := by decide
  have hname : ¬ IsShorthand "~u/a/../../../c" := by decide
  have hkept := (leading_tilde_read known "~\n/a/..//b").2 hline (by decide) "~"
  have hleft := (leading_tilde_read known "~u/a/../../../c").2 hname (by decide) ""
  exact ⟨known, hback, (leading_tilde_read known "~\\a\n").1 (.inl hback), hline, hkept.1,
    (hkept.2 (by decide)).2, hname, (hleft.2 (by decide)).1, (hleft.2 (by decide)).2⟩

/-- A tilde before a line feed is neither alone nor before a separator, yet it is replaced, and the
path depends on the home directory. -/
theorem final_line_feed_expanded :
    ¬ IsShorthand "~\n" ∧ homeLocation? "/home/t" ≠ none ∧
    expandHome "/home/t" "~\n" = some "/home/t\n" ∧ expandHome "/home/t" "~\n" ≠ some "~\n" ∧
    canonical "/home/t" "~\n" = some "/home/t\n" ∧ canonical "/root" "~\n" = some "/root\n" := by
  decide

end Admission.Path
