import Admission.Git.SafeDirectory
import Admission.Proofs.Saving

/-!
# Directories that are trusted already

Whether a directory is trusted already is read off git's listing, line by line and without the
blanks around a line. So a directory is found there just if some value of the list is read as it,
and what is read is always a plain text: one line, without outer blanks. A directory that is not
plain is never found, and each time that it is trusted the list grows; one that is plain may be
found where it is not on the list. On lists of plain directories neither happens.
-/
namespace Admission

/-! ## Lines of a text -/

namespace Text

/-- The text has no line end in it. -/
def IsLine (s : String) : Prop := ∀ c ∈ s.toList, isLineEnd c = false

theorem linesFrom_of_lineEnd {c : Char} (hc : isLineEnd c = true) {rest : List Char}
    (h : c = '\r' → rest.head? ≠ some '\n') (seen : List Char) :
    linesFrom seen (c :: rest) = seen.reverse :: linesFrom [] rest := by
  rw [linesFrom]
  · simp [hc]
  · rintro rest' rfl rfl
    exact h rfl rfl

theorem linesFrom_of_not_lineEnd {c : Char} (hc : isLineEnd c = false) (seen rest : List Char) :
    linesFrom seen (c :: rest) = linesFrom (c :: seen) rest := by
  rw [linesFrom]
  · simp [hc]
  · rintro rest' rfl
    exact absurd hc (by decide)

/-- What stands before a line feed and what stands after it are split into lines apart. -/
theorem linesFrom_append (seen cs ds : List Char) :
    linesFrom seen (cs ++ '\n' :: ds) = linesFrom seen (cs ++ ['\n']) ++ linesFrom [] ds := by
  fun_induction linesFrom seen cs with
  | case1 seen => simp [linesFrom, isLineEnd]
  | case2 => simp [linesFrom, isLineEnd]
  | case3 seen rest ih => simp [linesFrom, ih]
  | case4 seen c rest hcr hend ih =>
    cases rest with
    | nil =>
      by_cases hc : c = '\r'
      · subst hc
        simp [linesFrom]
      · simp only [List.cons_append, List.nil_append]
        rw [linesFrom_of_lineEnd hend (by simp [hc]), linesFrom_of_lineEnd hend (by simp [hc])]
        simp [linesFrom, isLineEnd]
    | cons c' rest =>
      have hpair (more : List Char) : c = '\r' → (c' :: more).head? ≠ some '\n' := by
        rintro rfl he
        exact hcr rest rfl (by rw [Option.some.inj he])
      simp only [List.cons_append] at ih ⊢
      rw [linesFrom_of_lineEnd hend (hpair _), linesFrom_of_lineEnd hend (hpair _), ih,
        List.cons_append]
  | case5 seen c rest hcr hend ih =>
    have hend : isLineEnd c = false := by simpa using hend
    simp only [List.cons_append]
    rw [linesFrom_of_not_lineEnd hend, linesFrom_of_not_lineEnd hend, ih]

/-- A line end never gets into a line. -/
theorem isLineEnd_of_mem_linesFrom {seen cs line : List Char} {c : Char}
    (hseen : ∀ c ∈ seen, isLineEnd c = false) (hline : line ∈ linesFrom seen cs) (hc : c ∈ line) :
    isLineEnd c = false := by
  fun_induction linesFrom seen cs with
  | case1 seen => cases hline
  | case2 seen =>
    obtain rfl := List.mem_singleton.mp hline
    exact hseen c (List.mem_reverse.mp hc)
  | case3 seen rest ih =>
    rcases List.mem_cons.mp hline with rfl | hline
    · exact hseen c (List.mem_reverse.mp hc)
    · exact ih nofun hline
  | case4 seen c' rest hcr hend ih =>
    rcases List.mem_cons.mp hline with rfl | hline
    · exact hseen c (List.mem_reverse.mp hc)
    · exact ih nofun hline
  | case5 seen c' rest hcr hend ih =>
    refine ih (fun d hd => ?_) hline
    rcases List.mem_cons.mp hd with rfl | hd
    · simpa using hend
    · exact hseen d hd

/-- A line with a line feed after it is one line. -/
theorem linesFrom_of_isLine {seen cs : List Char} (h : ∀ c ∈ cs, isLineEnd c = false) :
    linesFrom seen (cs ++ ['\n']) = [seen.reverse ++ cs] := by
  induction cs generalizing seen with
  | nil => simp [linesFrom, isLineEnd]
  | cons c cs ih =>
    rw [List.cons_append, linesFrom_of_not_lineEnd (h c (List.mem_cons_self ..)),
      ih fun d hd => h d (List.mem_cons_of_mem c hd)]
    simp

theorem mem_of_mem_strip {s : String} {c : Char} (h : c ∈ (strip s).toList) : c ∈ s.toList := by
  rw [strip, String.toList_ofList, trim_eq_rdropWhile] at h
  exact (List.dropWhile_suffix isBlank).subset ((List.rdropWhile_prefix isBlank _).subset h)

end Text

namespace Git

/-! ## The listing -/

/-- What git writes of a list: each value, and a line feed after it. -/
def listingOf (values : List String) : String := String.join (values.map (· ++ "\n"))

/-- The directories that a single value is read as. -/
def readAs (value : String) : List String := listed (value ++ "\n")

/-- A directory that is read as it was written: filled, without outer blanks, on one line. -/
structure IsPlain (value : String) : Prop where
  entry : Registry.IsEntry value
  line : Text.IsLine value

theorem listed_listingOf (values : List String) :
    listed (listingOf values) = values.flatMap readAs := by
  induction values with
  | nil => rfl
  | cons value values ih =>
    have hlines : Text.lines (listingOf (value :: values)) =
        Text.lines (value ++ "\n") ++ Text.lines (listingOf values) := by
      have hjoin : (listingOf (value :: values)).toList =
          value.toList ++ '\n' :: (listingOf values).toList := by
        simp [listingOf, String.toList_join]
      rw [Text.lines, hjoin, Text.linesFrom_append, List.map_append]
      simp [Text.lines]
    rw [List.flatMap_cons, ← ih]
    simp only [listed, readAs, hlines, List.map_append, List.filter_append]

/-- What is read as a directory is plain. -/
theorem isPlain_of_mem_readAs {value path : String} (h : path ∈ readAs value) : IsPlain path := by
  simp only [readAs, listed, Text.lines, List.mem_filter, List.mem_map, decide_eq_true_eq] at h
  obtain ⟨⟨-, ⟨line, hline, rfl⟩, rfl⟩, hfilled⟩ := h
  have hentry :
      Registry.entryOf? (String.ofList line) = some (Text.strip (String.ofList line)) := by
    simp [Registry.entryOf?, hfilled]
  refine ⟨Registry.isEntry_of_entryOf? hentry, fun c hc => ?_⟩
  refine Text.isLineEnd_of_mem_linesFrom (by simp) hline ?_
  simpa using Text.mem_of_mem_strip hc

theorem readAs_of_isPlain {value : String} (h : IsPlain value) : readAs value = [value] := by
  have hlines : Text.lines (value ++ "\n") = [value] := by
    simp [Text.lines, Text.linesFrom_of_isLine h.line]
  have hstrip : Text.strip value = value :=
    Text.strip_eq_self_iff.mpr ⟨h.entry.start, h.entry.finish⟩
  simp [readAs, listed, hlines, hstrip, h.entry.filled]

/-- A directory is read off a list just if it is plain, once it is on the list. -/
theorem mem_flatMap_readAs_of_mem {values : List String} {path : String} (h : path ∈ values) :
    path ∈ values.flatMap readAs ↔ IsPlain path := by
  constructor
  · intro hread
    obtain ⟨value, -, hmem⟩ := List.mem_flatMap.mp hread
    exact isPlain_of_mem_readAs hmem
  · intro hplain
    exact List.mem_flatMap.mpr ⟨path, h, by simp [readAs_of_isPlain hplain]⟩

theorem flatMap_readAs_of_isPlain {values : List String} (h : ∀ value ∈ values, IsPlain value) :
    values.flatMap readAs = values := by
  rw [List.flatMap_congr fun value hvalue => readAs_of_isPlain (h value hvalue)]
  simp

/-! ## Trust -/

section Trust

variable {σ : Type} {host : Host σ} {git : String} {values : σ → List String} {s s' : σ}

/-- A host whose git keeps the trusted directories in a list. It shows them in order, or says by exit
status 1 that there are none. What it says that it has added stands at the end of the list, and the
list stays as it is if it says anything else. -/
structure Keeps (host : Host σ) (git : String) (values : σ → List String) : Prop where
  lists (s : σ) : values (host.run (listing git) s).2 = values s ∧
    ∃ e : Exit, (host.run (listing git) s).1 = .ok e ∧
      if values s = [] then e.status = 1 else e.status = 0 ∧ e.output = listingOf (values s)
  adds (path : String) (s : σ) :
    (values (host.run (addition git path) s).2 = values s ++ [path] ∧
      ∃ e : Exit, (host.run (addition git path) s).1 = .ok e ∧ e.status = 0) ∨
    (values (host.run (addition git path) s).2 = values s ∧
      ∀ e : Exit, (host.run (addition git path) s).1 = .ok e → e.status ≠ 0)

theorem Keeps.trustedPaths_eq (keeps : Keeps host git values) (s : σ) :
    (trustedPaths host git s).1 = .ok ((values s).flatMap readAs) ∧
      values (trustedPaths host git s).2 = values s := by
  obtain ⟨hstays, e, he, hexit⟩ := keeps.lists s
  have hrun : host.run (listing git) s = (.ok e, (host.run (listing git) s).2) :=
    Prod.ext he rfl
  rw [trustedPaths, storeRun, hrun]
  by_cases hnone : values s = []
  · rw [if_pos hnone] at hexit
    simp [hexit, hnone, hstays]
  · rw [if_neg hnone] at hexit
    simp [hexit.1, hexit.2, listed_listingOf, hstays]

/-- A directory that is read off the list is not added. Any other is, or the call fails and leaves
the list as it is. -/
theorem Keeps.trust_cases (keeps : Keeps host git values) (path : String) (s : σ) :
    if path ∈ (values s).flatMap readAs then
      (trust host git path s).1 = .ok () ∧ values (trust host git path s).2 = values s
    else
      ((trust host git path s).1 = .ok () ∧
        values (trust host git path s).2 = values s ++ [path]) ∨
      ((∃ f, (trust host git path s).1 = .error f) ∧
        values (trust host git path s).2 = values s) := by
  obtain ⟨hread, hstays⟩ := keeps.trustedPaths_eq s
  rcases hlook : trustedPaths host git s with ⟨found, t⟩
  rw [hlook] at hread hstays
  simp only at hread hstays
  subst hread
  unfold trust
  rw [hlook]
  simp only [List.contains_iff_mem]
  split
  · exact ⟨rfl, hstays⟩
  · have hadds := keeps.adds path t
    rw [hstays] at hadds
    rcases hrun : host.run (addition git path) t with ⟨o, u⟩
    rw [hrun] at hadds
    simp only [storeRun, hrun]
    rcases hadds with ⟨hadded, e, rfl, hstatus⟩ | ⟨hkept, hno⟩
    · simp [hstatus, hadded]
    · cases o with
      | ok e => simp [hno e rfl, hkept]
      | error f => by_cases hf : f.kind.isSystem = true <;> simp [hf, hkept]

/-- The list after a call that succeeds. -/
theorem Keeps.values_of_ok (keeps : Keeps host git values) {path : String}
    (h : trust host git path s = (.ok (), s')) :
    values s' = if path ∈ (values s).flatMap readAs then values s else values s ++ [path] := by
  have htrust := keeps.trust_cases path s
  rw [h] at htrust
  split at htrust
  · next hread => rw [if_pos hread, htrust.2]
  · next hread =>
    rw [if_neg hread]
    rcases htrust with ⟨-, h⟩ | ⟨⟨f, h⟩, -⟩
    · exact h
    · cases h

/-- What trust comes to. A call that fails leaves the list as it is. After one that succeeds, the
list is the old one if the directory is read off it, and has the directory at its end if not. So
the list is as it should be just if the directory is read off the old list exactly when it is on it;
the directory is on the new list unless it was read off the old one without being on it; and a
second call changes nothing just if the directory is plain. Among plain directories all is well. -/
theorem trust_by_reading (keeps : Keeps host git values) (path : String) (s : σ) :
    (∀ f s', trust host git path s = (.error f, s') → values s' = values s) ∧
    ∀ s', trust host git path s = (.ok (), s') →
      (values s' = if path ∈ (values s).flatMap readAs then values s else values s ++ [path]) ∧
      ((values s' = if path ∈ values s then values s else values s ++ [path]) ↔
        (path ∈ values s ↔ path ∈ (values s).flatMap readAs)) ∧
      (path ∈ values s' ↔ (path ∈ (values s).flatMap readAs → path ∈ values s)) ∧
      ((∀ value ∈ path :: values s, IsPlain value) →
        path ∈ values s' ∧ (values s' = if path ∈ values s then values s else values s ++ [path]) ∧
          ∀ value ∈ values s', IsPlain value) ∧
      ∀ s'', trust host git path s' = (.ok (), s'') → (values s'' = values s' ↔ IsPlain path) := by
  refine ⟨fun f s' hfail => ?_, fun s' hok => ?_⟩
  · have htrust := keeps.trust_cases path s
    rw [hfail] at htrust
    split at htrust
    · cases htrust.1
    · rcases htrust with ⟨h, -⟩ | ⟨-, h⟩
      · cases h
      · exact h
  · have hlist := keeps.values_of_ok hok
    refine ⟨hlist, ?_, ?_, fun hplain => ?_, fun s'' hagain => ?_⟩
    · rw [hlist]
      by_cases hread : path ∈ (values s).flatMap readAs <;> by_cases hin : path ∈ values s <;>
        simp only [hread, hin, if_true, if_false] <;> simp
    · rw [hlist]
      by_cases hread : path ∈ (values s).flatMap readAs <;> simp [hread]
    · have hlisted := List.forall_mem_of_forall_mem_cons hplain
      rw [flatMap_readAs_of_isPlain hlisted] at hlist
      rw [hlist]
      by_cases hin : path ∈ values s
      · simp only [if_pos hin]
        exact ⟨hin, trivial, hlisted⟩
      · simp only [if_neg hin]
        refine ⟨by simp, trivial, fun value hvalue => ?_⟩
        rcases List.mem_append.mp hvalue with hvalue | hvalue
        · exact hlisted value hvalue
        · exact hplain value (by simp_all)
    · rw [keeps.values_of_ok hagain]
      have hread : path ∈ (values s').flatMap readAs ↔ IsPlain path := by
        by_cases hbefore : path ∈ (values s).flatMap readAs
        · rw [hlist, if_pos hbefore]
          obtain ⟨value, -, hvalue⟩ := List.mem_flatMap.mp hbefore
          exact iff_of_true hbefore (isPlain_of_mem_readAs hvalue)
        · exact mem_flatMap_readAs_of_mem (by simp [hlist, hbefore])
      by_cases hplain : IsPlain path <;> simp [hread, hplain]

/-- A host that is nothing but the list. -/
def keeper : Host (List String) where
  isDirectory _ _ := .ok true
  run words values :=
    if words = listing "git" then
      (.ok (if values = [] then { status := 1 } else { output := listingOf values }), values)
    else (.ok {}, values ++ words.getLast?.toList)

theorem keeps_keeper : Keeps keeper "git" id where
  lists s := by
    by_cases h : s = [] <;> simp [keeper, h]
  adds path s := by
    exact .inl (by simp [keeper, listing, addition])

/-- A directory that is new, and trusted twice. -/
theorem trust_by_reading_new : trust keeper "git" "/b" ["/a"] = (.ok (), ["/a", "/b"]) ∧
    "/b" ∈ ["/a", "/b"] ∧
    ∀ t, trust keeper "git" "/b" ["/a", "/b"] = (.ok (), t) → t = ["/a", "/b"] := by
  have hplain (value : String) (h : value ∈ ["/b", "/a"]) : IsPlain value := by
    fin_cases h
    · exact isPlain_of_mem_readAs (show "/b" ∈ readAs "/b" by decide)
    · exact isPlain_of_mem_readAs (show "/a" ∈ readAs "/a" by decide)
  have hrun : trust keeper "git" "/b" ["/a"] = (.ok (), ["/a", "/b"]) := by decide
  obtain ⟨-, -, -, hgood, htwice⟩ := (trust_by_reading keeps_keeper "/b" ["/a"]).2 _ hrun
  exact ⟨hrun, (hgood hplain).1, fun t ht => (htwice t ht).mpr (hplain "/b" (by simp))⟩

/-- A directory that ends in a blank is added again, and the one without the blank is taken for
trusted. -/
theorem trailing_blank_misread :
    (¬ ∀ values path values', (∀ value ∈ path :: values, '\n' ∉ value.toList ∧ value ≠ "") →
      trust keeper "git" path values = (.ok (), values') →
      values' = if path ∈ values then values else values ++ [path]) ∧
    ¬ ∀ values path values', (∀ value ∈ path :: values, '\n' ∉ value.toList ∧ value ≠ "") →
      trust keeper "git" path values = (.ok (), values') → path ∈ values' := by
  constructor
  · intro h
    have hlist := h ["/repo "] "/repo " ["/repo ", "/repo "] (by decide) (by decide)
    revert hlist
    decide
  · intro h
    have hlisted := h ["/repo "] "/repo" ["/repo "] (by decide) (by decide)
    revert hlisted
    decide

end Trust

end Git
end Admission
