import CppDeps.Proofs.Path.Endings
import CppDeps.Proofs.SymbolIndex.Includes

/-!
# The basename of an include path

Where a known file bears the basename of an include path, the include path means a file with this
basename: itself, or else the file last added with it, whatever directories are written in front.  So a
partial path such as `Sub/Header.h` means the `Header.h` that was added last, and not the one that ends
with the partial path (`SymbolIndex.resolveInclude_of_isTailOf`).

Where no known file bears the basename, the text of a known path may still end with the text of the
include path, as that of `max.h` ends with `x.h` (`SymbolIndex.basename_resolveInclude`).
-/

namespace CppDeps

namespace SymbolIndex

variable {history : List (String × FileSymbols)} {path source target : String}

/-- An include path that ends in a name means itself, or the file last added with its basename, or, if
there is none, the file first added whose text ends with its own. -/
lemma resolveInclude_ofHistory_eq_or (history : List (String × FileSymbols)) (source : String)
    (hname : (Path.parse path).fileName? ≠ none) :
    (ofHistory history).resolveInclude path source =
      (if path ∈ (ofHistory history).filePaths then some path else none).or
        (((history.map Prod.fst).reverse.find? fun known =>
            Path.basename known = Path.basename path).or
          ((history.map Prod.fst).find? fun known => path.toList <:+ known.toList)) := by
  obtain ⟨name, hname⟩ := Option.ne_none_iff_exists'.1 hname
  have hadded : ∀ key, key ∈ history.map Prod.fst ↔ key ∈ (ofHistory history).filePaths :=
    fun _ => mem_filePaths_ofHistory.symm
  have hlast : ((history.map Prod.fst).reverse.find? fun known =>
      Path.basename known = Path.basename path) = none →
        relativeTarget path source ∉ history.map Prod.fst := by
    intro hnone hmem
    have hne := List.find?_eq_none.1 hnone _ (List.mem_reverse.2 hmem)
    rw [basename_relativeTarget hname, Path.basename_of_fileName? hname] at hne
    exact hne (decide_eq_true rfl)
  rw [resolveInclude_ofHistory_eq, includeTarget?]
  simp only [← hadded]
  congr 1
  cases hbasename : (history.map Prod.fst).reverse.find? fun known =>
      Path.basename known = Path.basename path with
  | some found => rfl
  | none => rw [if_neg (hlast hbasename), Option.or_none]

/-- No file was last added with a basename that no known file bears. -/
lemma find?_basename_eq_none_iff {name : String} :
    ((history.map Prod.fst).reverse.find? fun known => Path.basename known = name) = none ↔
      ∀ known ∈ (ofHistory history).filePaths, Path.basename known ≠ name := by
  simp only [List.find?_eq_none, List.mem_reverse, decide_eq_true_iff, mem_filePaths_ofHistory, ne_eq]

/-- The file that an include path means bears its basename, or else no known file does, and then it is the
file first added whose text ends with the include path. -/
lemma basename_eq_or_of_resolveInclude (hname : (Path.parse path).fileName? ≠ none)
    (h : (ofHistory history).resolveInclude path source = some target) :
    Path.basename target = Path.basename path ∨
      (∀ known ∈ (ofHistory history).filePaths, Path.basename known ≠ Path.basename path) ∧
        (history.map Prod.fst).find? (fun known => path.toList <:+ known.toList) = some target := by
  rw [resolveInclude_ofHistory_eq_or history source hname] at h
  simp only [Option.or_eq_some_iff] at h
  rcases h with hexact | ⟨-, hbasename | ⟨hnone, hsuffix⟩⟩
  · obtain ⟨-, heq⟩ := Option.ite_none_right_eq_some.1 hexact
    exact Or.inl (congrArg Path.basename (Option.some.inj heq).symm)
  · have hsame := of_find?_eq_some hbasename
    exact Or.inl hsame
  · exact Or.inr ⟨find?_basename_eq_none_iff.1 hnone, hsuffix⟩

/-- The basename of a file whose text ends with an include path ends with the basename of the latter. -/
lemma basename_suffix_of_find?_eq_some {added : List String}
    (hname : (Path.parse path).fileName? ≠ none)
    (h : (added.find? fun known => path.toList <:+ known.toList) = some target) :
    (Path.basename path).toList <:+ (Path.basename target).toList := by
  obtain ⟨name, hname⟩ := Option.ne_none_iff_exists'.1 hname
  have hends := of_find?_eq_some h
  obtain ⟨other, hother, hsuffix⟩ := Path.exists_fileName?_of_suffix hname hends
  rw [Path.basename_of_fileName? hname, Path.basename_of_fileName? hother]
  exact hsuffix

/-- An include path means nothing just if no known file has its basename and the text of none ends with
it. -/
lemma resolveInclude_eq_none_iff (hname : (Path.parse path).fileName? ≠ none) :
    (ofHistory history).resolveInclude path source = none ↔
      ∀ known ∈ (ofHistory history).filePaths,
        Path.basename known ≠ Path.basename path ∧ ¬ path.toList <:+ known.toList := by
  have hexact : (if path ∈ (ofHistory history).filePaths then some path else none) = none ↔
      path ∉ (ofHistory history).filePaths := by
    simp only [ite_eq_right_iff, reduceCtorEq, imp_false]
  have hsuffix : (history.map Prod.fst).find? (fun known => path.toList <:+ known.toList) = none ↔
      ∀ known ∈ (ofHistory history).filePaths, ¬ path.toList <:+ known.toList := by
    simp only [List.find?_eq_none, decide_eq_true_iff]
    exact forall_congr' fun known => imp_congr_left mem_filePaths_ofHistory.symm
  rw [resolveInclude_ofHistory_eq_or history source hname, Option.or_eq_none_iff,
    Option.or_eq_none_iff, hexact, find?_basename_eq_none_iff, hsuffix]
  constructor
  · rintro ⟨-, hbasenames, htexts⟩ known hknown
    exact ⟨hbasenames known hknown, htexts known hknown⟩
  · intro hknown
    exact ⟨fun hmem => (hknown path hmem).1 rfl, fun known hmem => (hknown known hmem).1,
      fun known hmem => (hknown known hmem).2⟩

/-- An include path whose basename a known file bears means itself, or else the file last added with this
basename. -/
lemma exists_resolveInclude_of_basename (hname : (Path.parse path).fileName? ≠ none)
    (h : ∃ known ∈ (ofHistory history).filePaths, Path.basename known = Path.basename path) :
    ∃ target, (ofHistory history).resolveInclude path source = some target ∧
      if path ∈ (ofHistory history).filePaths then target = path
      else (history.map Prod.fst).reverse.find?
        (fun known => Path.basename known = Path.basename path) = some target := by
  rw [resolveInclude_ofHistory_eq_or history source hname]
  by_cases hpath : path ∈ (ofHistory history).filePaths
  · refine ⟨path, ?_, ?_⟩
    · rw [if_pos hpath, Option.some_or]
    · rw [if_pos hpath]
  · cases hlast : (history.map Prod.fst).reverse.find?
        fun known => Path.basename known = Path.basename path with
    | none =>
      obtain ⟨known, hknown, hbasename⟩ := h
      exact absurd hbasename (find?_basename_eq_none_iff.1 hlast known hknown)
    | some last =>
      refine ⟨last, ?_, ?_⟩
      · rw [if_neg hpath, Option.none_or, Option.some_or]
      · rw [if_neg hpath]

/-- The empty include path means nothing just if no file is known, for every text ends with it. -/
lemma resolveInclude_empty_eq_none_iff (history : List (String × FileSymbols)) (source : String) :
    (ofHistory history).resolveInclude "" source = none ↔ (ofHistory history).filePaths = [] := by
  constructor
  · intro h
    have hsuffix : (ofHistory history).filePaths.find? (fun known => Text.endsWith known "") = none :=
      List.findSome?_eq_none_iff.1 h ("suffix", suffixMatch) (by simp [includeStrategies])
    apply List.eq_nil_iff_forall_not_mem.2
    intro known hknown
    exact List.find?_eq_none.1 hsuffix known hknown (Text.endsWith_iff.2 List.nil_suffix)
  · intro h
    rw [Option.eq_none_iff_forall_ne_some]
    intro target htarget
    have hmem := mem_filePaths_of_resolveInclude htarget
    rw [h] at hmem
    exact absurd hmem List.not_mem_nil

/-- **The basename of the file that an include path means.**  It is that of the include path, which
ends in a name; or no known file has that basename, and then the file is the one first added whose text
ends with the include path, and its basename ends with that of the include path.  The include path means
nothing just if no known file has its basename and the text of none ends with it.  The empty include
path means nothing just if no file is known. -/
theorem basename_resolveInclude (history : List (String × FileSymbols)) (path source : String)
    (hname : (Path.parse path).fileName? ≠ none) :
    let index := ofHistory history
    (∀ target, index.resolveInclude path source = some target →
      Path.basename target = Path.basename path ∨
      (∀ known ∈ index.filePaths, Path.basename known ≠ Path.basename path) ∧
        (history.map Prod.fst).find? (fun known => path.toList <:+ known.toList) = some target ∧
        (Path.basename path).toList <:+ (Path.basename target).toList) ∧
    (index.resolveInclude path source = none ↔
      ∀ known ∈ index.filePaths,
        Path.basename known ≠ Path.basename path ∧ ¬ path.toList <:+ known.toList) ∧
    (index.resolveInclude "" source = none ↔ index.filePaths = []) := by
  refine ⟨fun target htarget => ?_, resolveInclude_eq_none_iff hname,
    resolveInclude_empty_eq_none_iff _ source⟩
  rcases basename_eq_or_of_resolveInclude hname htarget with hsame | ⟨hnone, hfound⟩
  · exact Or.inl hsame
  · exact Or.inr ⟨hnone, hfound, basename_suffix_of_find?_eq_some hname hfound⟩

/-- A header that is not among the files, and one whose text ends with that of the header. -/
theorem basename_resolveInclude_max :
    let index := ofHistory [("max.h", { filePath := "" })]
    (Path.parse "x.h").fileName? ≠ none ∧
    (∀ source, ∀ target, index.resolveInclude "x.h" source = some target →
      Path.basename target = "x.h" ∨
      (∀ known ∈ index.filePaths, Path.basename known ≠ "x.h") ∧
        (["max.h"].find? fun known => "x.h".toList <:+ known.toList) = some target ∧
        "x.h".toList <:+ (Path.basename target).toList) ∧
    index.resolveInclude "x.h" "main.cpp" = some "max.h" := by
  intro index
  have hname : (Path.parse "x.h").fileName? ≠ none := by decide
  exact ⟨hname, fun source => (basename_resolveInclude _ "x.h" source hname).1, by decide⟩

/-- The basename of the file may be a longer one than that of the include path, and the empty include
path may mean a file. -/
theorem basename_resolveInclude_ne :
    (¬ ∀ (history : List (String × FileSymbols)) (path source target : String),
      (Path.parse path).fileName? ≠ none →
        (ofHistory history).resolveInclude path source = some target →
          Path.basename target = Path.basename path) ∧
    ¬ ∀ (history : List (String × FileSymbols)) (source : String),
      (ofHistory history).resolveInclude "" source = none := by
  constructor
  · intro h
    have hmax := h [("max.h", { filePath := "" })] "x.h" "main.cpp" "max.h" (by decide) (by decide)
    exact absurd hmax (by decide)
  · intro h
    exact absurd (h [("max.h", { filePath := "" })] "main.cpp") (by decide)

/-- **What an include path means that is the tail of a known path**: a known file with its basename.
It is the include path itself, if that is known, and otherwise the path added last among those with
this basename.  So the include path is a tail of it too where it is one of all that have its basename,
but not always. -/
theorem resolveInclude_of_isTailOf (history : List (String × FileSymbols)) (path source : String)
    (hname : (Path.parse path).fileName? ≠ none)
    (htail : ∃ known ∈ (ofHistory history).filePaths, Path.IsTailOf path known) :
    let index := ofHistory history
    ∃ target, index.resolveInclude path source = some target ∧
      target ∈ index.filePaths ∧
      Path.basename target = Path.basename path ∧
      (if path ∈ index.filePaths then target = path
        else (history.map Prod.fst).reverse.find?
          (fun known => Path.basename known = Path.basename path) = some target) ∧
      ((∀ known ∈ index.filePaths, Path.basename known = Path.basename path →
        Path.IsTailOf path known) → Path.IsTailOf path target) := by
  intro index
  obtain ⟨known, hknown, htail⟩ := htail
  have hbasename : Path.basename known = Path.basename path := by
    obtain ⟨name, hname⟩ := Option.ne_none_iff_exists'.1 hname
    exact Path.basename_of_isTailOf hname htail
  -- the two strategies in front of the one for endings find a file already
  obtain ⟨target, htarget, hwhich⟩ :=
    exists_resolveInclude_of_basename hname ⟨known, hknown, hbasename⟩
  have hmem : target ∈ index.filePaths := mem_filePaths_of_resolveInclude htarget
  have hsame : Path.basename target = Path.basename path := by
    rcases basename_eq_or_of_resolveInclude hname htarget with hsame | ⟨hnone, -⟩
    · exact hsame
    · exact absurd hbasename (hnone known hknown)
  exact ⟨target, htarget, hmem, hsame, hwhich, fun hall => hall target hmem hsame⟩

/-- The files of a case where a partial path and the basename at its end disagree. -/
def twoHeaders : List (String × FileSymbols) :=
  [("a/Sub/Header.h", { filePath := "" }), ("b/Header.h", { filePath := "" })]

/-- A partial path that is the tail of the file added first. -/
theorem resolveInclude_of_isTailOf_header :
    let index := ofHistory twoHeaders
    (Path.parse "Sub/Header.h").fileName? ≠ none ∧
    (∃ known ∈ index.filePaths, Path.IsTailOf "Sub/Header.h" known) ∧
    ∃ target, index.resolveInclude "Sub/Header.h" "main.cpp" = some target ∧
      target ∈ index.filePaths ∧ Path.basename target = "Header.h" := by
  intro index
  have hname : (Path.parse "Sub/Header.h").fileName? ≠ none := by decide
  have htail : ∃ known ∈ index.filePaths, Path.IsTailOf "Sub/Header.h" known := by decide
  obtain ⟨target, htarget, hmem, hsame, -⟩ :=
    resolveInclude_of_isTailOf twoHeaders "Sub/Header.h" "main.cpp" hname htail
  exact ⟨hname, htail, target, htarget, hmem, hsame⟩

/-- The include path need not be a tail of the file that it means, though it is one of another file. -/
theorem resolveInclude_not_isTailOf :
    ¬ ∀ (history : List (String × FileSymbols)) (path source : String),
      (Path.parse path).fileName? ≠ none → (Path.parse path).isAbsolute = false →
        (∃ known ∈ (ofHistory history).filePaths, Path.IsTailOf path known) →
          ∃ target, (ofHistory history).resolveInclude path source = some target ∧
            Path.IsTailOf path target := by
  intro h
  obtain ⟨target, htarget, htail⟩ :=
    h twoHeaders "Sub/Header.h" "main.cpp" (by decide) (by decide) (by decide)
  have hother : (ofHistory twoHeaders).resolveInclude "Sub/Header.h" "main.cpp" =
      some "b/Header.h" := by decide
  obtain rfl : "b/Header.h" = target := Option.some.inj (hother.symm.trans htarget)
  exact absurd htail (by decide)

end SymbolIndex

end CppDeps
