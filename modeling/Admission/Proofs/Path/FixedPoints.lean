import Admission.Proofs.Path.Shorthand
import Admission.Git.Inspection
import Admission.Proofs.Desk.Provenance

/-!
# Canonical paths as fixed points

A path text is canonical if it is the root, or names with a slash before each. The canonical path of
a text is of that kind, and of all texts just those of that kind are their own canonical paths,
whatever the home directory is. Which of them a text denotes is not said here.
-/
namespace Admission.Path

/-- The root, or one or more names with a slash before each. -/
def IsCanonical (s : String) : Prop :=
  s = "/" ∨ ∃ names : List Piece, names ≠ [] ∧ (∀ p ∈ names, IsName p) ∧
    s.toList = names.flatMap ('/' :: ·)

variable {names : List Piece} {home s : String}

/-! ## Names and their text -/

theorem pieces_of_not_mem {cs : List Char} (h : '/' ∉ cs) : pieces cs = [cs] := by
  induction cs with
  | nil => rfl
  | cons c cs ih =>
    have hc : c ≠ '/' := (List.ne_of_not_mem_cons h).symm
    simp [pieces, hc, ih (List.not_mem_of_not_mem_cons h)]

theorem pieces_append_flatMap {p : Piece} (hp : '/' ∉ p) (hn : ∀ q ∈ names, '/' ∉ q) :
    pieces (p ++ names.flatMap ('/' :: ·)) = p :: names := by
  induction names generalizing p with
  | nil => simp [pieces_of_not_mem hp]
  | cons q names ih =>
    obtain ⟨hq, hn⟩ := List.forall_mem_cons.mp hn
    rw [List.flatMap_cons, List.cons_append, pieces_append_slash, pieces_of_not_mem hp, ih hq hn,
      List.singleton_append]

/-- A text of names starts with a slash, so its first piece is empty. -/
theorem pieces_flatMap (hn : ∀ q ∈ names, '/' ∉ q) :
    pieces (names.flatMap ('/' :: ·)) = [] :: names :=
  pieces_append_flatMap List.not_mem_nil hn

theorem foldl_descend_of_isName {above : List Piece} (h : ∀ p ∈ names, IsName p) :
    names.foldl descend above = above ++ names := by
  induction names generalizing above with
  | nil => simp
  | cons p names ih =>
    obtain ⟨hp, hn⟩ := List.forall_mem_cons.mp h
    rw [List.foldl_cons, descend_of_isName hp, ih hn, List.append_assoc, List.singleton_append]

/-- Names are found again in their text. -/
theorem resolve_pieces_absolute (h : ∀ p ∈ names, IsName p) :
    resolve (pieces (absolute names)) = names := by
  cases names with
  | nil => rfl
  | cons p names =>
    have hpieces : pieces (absolute (p :: names)) = [] :: p :: names :=
      pieces_flatMap fun q hq => (h q hq).2.2.2
    have hstay : descend [] [] = [] := rfl
    rw [hpieces, resolve, List.foldl_cons, hstay, foldl_descend_of_isName h, List.nil_append]

/-! ## Canonical texts -/

theorem isCanonical_iff :
    IsCanonical s ↔ ∃ names : List Piece, (∀ p ∈ names, IsName p) ∧ s.toList = absolute names := by
  constructor
  · rintro (rfl | ⟨names, hne, hnames, hs⟩)
    · exact ⟨[], by simp, rfl⟩
    · exact ⟨names, hnames, by simpa [absolute, hne] using hs⟩
  · rintro ⟨names, hnames, hs⟩
    cases names with
    | nil => exact .inl (String.toList_inj.mp hs)
    | cons p names => exact .inr ⟨p :: names, List.cons_ne_nil _ _, hnames, hs⟩

theorem isCanonical_ofList_canonicalChars (cs : List Char) :
    IsCanonical (String.ofList (canonicalChars cs)) :=
  isCanonical_iff.mpr ⟨resolve (pieces cs), isName_of_mem_resolve, String.toList_ofList⟩

/-- A canonical text begins with one slash, and not with two. -/
theorem IsCanonical.single_slash (h : IsCanonical s) :
    ∃ rest, s.toList = '/' :: rest ∧ rest.head? ≠ some '/' := by
  obtain ⟨names, hnames, hs⟩ := isCanonical_iff.mp h
  rw [hs]
  cases names with
  | nil => exact ⟨[], rfl, nofun⟩
  | cons p names =>
    obtain ⟨hfilled, -, -, hslash⟩ := hnames p List.mem_cons_self
    obtain ⟨c, cs, rfl⟩ := List.exists_cons_of_ne_nil hfilled
    have hc : c ≠ '/' := fun hc => hslash (hc ▸ List.mem_cons_self)
    exact ⟨c :: cs ++ names.flatMap ('/' :: ·), rfl, by simpa using hc⟩

/-- It has no home shorthand, so the home directory is of no account. -/
theorem IsCanonical.expandHome (h : IsCanonical s) (home : String) :
    Path.expandHome home s = some s := by
  obtain ⟨rest, hs, -⟩ := h.single_slash
  exact expandHome_of_head_ne (by simp [hs])

theorem isCanonical_of_canonical {raw : String} (h : canonical home raw = some s) :
    IsCanonical s := by
  obtain ⟨t, -, rfl⟩ := Option.map_eq_some_iff.mp h
  exact isCanonical_ofList_canonicalChars t.toList

theorem IsCanonical.canonical (h : IsCanonical s) (home : String) :
    Path.canonical home s = some s := by
  obtain ⟨names, hnames, hs⟩ := isCanonical_iff.mp h
  rw [Path.canonical, h.expandHome, Option.map_some, hs, canonicalChars,
    resolve_pieces_absolute hnames, ← hs, String.ofList_toList]

/-- Wherever the home directory is, every text, or none at all, has a canonical path, which is of
the canonical kind. A text is its own canonical path just if it is of that kind, whether there is a
home directory or not; so to make a path canonical twice is to do so once, and the second time the
home directory is not looked for. What is inspected with git on any run begins with a single
slash. -/
theorem canonical_form_fixed :
    (∀ (home : String) (raw : Option String), (homeLocation? home).isSome = true →
      ∃ p, canonical home (raw.getD "") = some p ∧ IsCanonical p ∧
        ∀ other, canonical other p = some p) ∧
    (∀ home p : String, canonical home p = some p ↔ IsCanonical p) ∧
    ∀ (σ : Type) (s : Setting σ) (d : Desk σ) (git : String) (c : Nat) (call : Call),
      Desk.Reachable s d → d.calls[c]? = some call →
      ∃ rest, Git.inspection git call.path =
          [git, "-C", String.ofList ('/' :: rest), "rev-parse", "--is-bare-repository"] ∧
        rest.head? ≠ some '/' := by
  refine ⟨fun home raw known => ?_, fun home p => ?_, fun σ s d git c call hd hc => ?_⟩
  · obtain ⟨p, hp⟩ := Option.ne_none_iff_exists'.mp (canonical_ne_none known (raw.getD ""))
    have hform := isCanonical_of_canonical hp
    exact ⟨p, hp, hform, hform.canonical⟩
  · exact ⟨isCanonical_of_canonical, fun h => h.canonical home⟩
  · obtain ⟨q, -, hpath⟩ := hd.backed.calls hc
    obtain ⟨rest, hrest, hhead⟩ := (isCanonical_of_canonical hpath).single_slash
    refine ⟨rest, ?_, hhead⟩
    rw [← hrest, String.ofList_toList, Git.inspection]

/-- A path below a home directory that is written with two slashes, found again where there is no
home directory; and the text of a dialog that starts with two slashes, as git is given it. -/
theorem canonical_form_fixed_doubled :
    canonical "//home//t/" "~/..//a/." = some "/home/a" ∧ homeLocation? "~" = none ∧
    canonical "~" "/home/a" = some "/home/a" ∧ IsCanonical "/home/a" ∧
    ∃ rest, Git.inspection "git" "/b" =
        ["git", "-C", String.ofList ('/' :: rest), "rev-parse", "--is-bare-repository"] ∧
      rest.head? ≠ some '/' := by
  have hp : canonical "//home//t/" "~/..//a/." = some "/home/a" := by decide
  obtain ⟨p, hp', hform, hfixed⟩ :=
    canonical_form_fixed.1 "//home//t/" (some "~/..//a/.") (by decide)
  obtain rfl := Option.some.inj (hp.symm.trans hp')
  exact ⟨hp, by decide, hfixed "~", hform, canonical_form_fixed.2.2 Unit (Desk.patient "/root")
    _ "git" 0 _ ((Desk.reachable_opening () [""]).after
      [.edit 0 (.setPath "//a/../b"), .step, .step]) rfl⟩

end Admission.Path
