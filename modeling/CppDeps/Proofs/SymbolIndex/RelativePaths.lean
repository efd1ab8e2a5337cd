import CppDeps.Proofs.Path.Folding
import CppDeps.Proofs.Path.Joining
import CppDeps.Proofs.SymbolIndex.Includes

/-!
# Include paths that lead up first

An include path may leave the directory of the including file by one `..` for each of its parts and go
down to any file from there.  Seen from that directory and folded it is the path of the file again,
since each `..` takes away the name that was put on the stack last
(`SymbolIndex.relativeTarget_climb`).  With the laws of folding this is all that the strategy for relative
paths rests on (`SymbolIndex.folding_laws`).
-/

namespace CppDeps

namespace Path

variable {path : String}

/-! ## Paths of names -/

/-- A relative path of names with one slash between two of them. -/
def IsNamesOnly (path : String) : Prop :=
  ∀ field ∈ path.toList.splitOn '/', field ≠ [] ∧ field ≠ ['.'] ∧ field ≠ ['.', '.']

instance : DecidablePred IsNamesOnly :=
  fun _ => List.decidableBAll _ _

/-- The names between the slashes of a path. -/
def fieldNames (path : String) : List String :=
  (path.toList.splitOn '/').map String.ofList

/-- A path of names has these for its parts. -/
lemma IsNamesOnly.filterMap_ofField? (h : IsNamesOnly path) :
    (path.toList.splitOn '/').filterMap Part.ofField? = (fieldNames path).map Part.name := by
  have hname : ∀ field ∈ path.toList.splitOn '/',
      Part.ofField? field = some (.name (String.ofList field)) := by
    intro field hfield
    obtain ⟨hnil, hdot, hup⟩ := h field hfield
    unfold Part.ofField?
    split
    · exact absurd rfl hnil
    · exact absurd rfl hdot
    · exact absurd rfl hup
    · rfl
  rw [List.filterMap_congr hname, fieldNames, List.map_map, List.filterMap_eq_map']
  rfl

/-- A path of names does not start at the root. -/
lemma IsNamesOnly.head?_ne (h : IsNamesOnly path) : path.toList.head? ≠ some '/' := by
  intro hslash
  obtain ⟨rest, hrest⟩ := List.head?_eq_some_iff.1 hslash
  have hempty : [] ∈ path.toList.splitOn '/' := by
    rw [hrest, ← List.nil_append ('/' :: rest), List.splitOn_append_cons_self, List.splitOn_nil]
    exact List.mem_cons_self
  exact (h [] hempty).1 rfl

/-- A path of names is read as these names. -/
lemma IsNamesOnly.parse_eq (h : IsNamesOnly path) :
    parse path = ⟨false, (fieldNames path).map Part.name⟩ := by
  have hdot : (path.toList.splitOn '/').head? ≠ some ['.'] := fun hhead =>
    (h _ (List.mem_of_head? hhead)).2.1 rfl
  rw [parse, beq_false_of_ne h.head?_ne, partsOf, if_neg hdot, h.filterMap_ofField?]

/-- There is at least one name. -/
lemma fieldNames_ne_nil (path : String) : fieldNames path ≠ [] :=
  List.map_eq_nil_iff.not.2 (List.splitOn_ne_nil '/' _)

/-- A path of names is written as it was read. -/
lemma IsNamesOnly.render_parse (h : IsNamesOnly path) : (parse path).render = path := by
  have hfields : (parse path).fields = path.toList.splitOn '/' := by
    rw [h.parse_eq, fields, if_neg Bool.false_ne_true, List.nil_append, fieldNames, List.map_map,
      List.map_map]
    refine (List.map_congr_left fun field _ => ?_).trans (List.map_id _)
    exact String.toList_ofList
  have hparts : (parse path).parts ≠ [] := by
    rw [h.parse_eq]
    exact List.map_eq_nil_iff.not.2 (fieldNames_ne_nil path)
  rw [← String.toList_inj, toList_render hparts, hfields]
  exact List.intercalate_splitOn '/'

/-! ## Leading up -/

/-- The way up through some directories. -/
def climb : ℕ → String
  | 0 => ""
  | k + 1 => "../" ++ climb k

/-- The directory of a file, from which its include paths are seen. -/
def directory (source : String) : Path :=
  ((parse source).parent?).getD (parse "")

/-- The way up puts a `..` before the fields of a path for each directory. -/
lemma splitOn_climb (k : ℕ) (path : String) :
    (climb k ++ path).toList.splitOn '/' =
      List.replicate k ['.', '.'] ++ path.toList.splitOn '/' := by
  induction k with
  | zero => rw [climb, String.empty_append]; rfl
  | succ k ih =>
    have htext : (climb (k + 1) ++ path).toList = ['.', '.'] ++ '/' :: (climb k ++ path).toList := by
      rw [climb, String.append_assoc, String.toList_append]
      rfl
    rw [htext, List.splitOn_append_cons_self, ih]
    rfl

/-- The way up to a path of names is read as some `..`s before the names. -/
lemma IsNamesOnly.parse_climb (h : IsNamesOnly path) (k : ℕ) :
    parse (climb k ++ path) =
      ⟨false, List.replicate k .up ++ (fieldNames path).map Part.name⟩ := by
  cases k with
  | zero =>
    rw [climb, String.empty_append, h.parse_eq]
    rfl
  | succ k =>
    have hroot : (climb (k + 1) ++ path).toList.head? ≠ some '/' := by
      have hstart : "../".toList = ['.', '.', '/'] := rfl
      rw [climb, String.append_assoc, String.toList_append, hstart]
      exact fun hslash => absurd (Option.some.inj hslash) (by decide)
    have hups : (List.replicate (k + 1) ['.', '.']).filterMap Part.ofField? =
        List.replicate (k + 1) Part.up := List.filterMap_replicate_of_some rfl
    have hdot : (List.replicate (k + 1) ['.', '.'] ++ path.toList.splitOn '/').head? ≠
        some ['.'] := by
      rw [List.replicate_succ]
      exact fun hdot => absurd (Option.some.inj hdot) (by decide)
    rw [parse, beq_false_of_ne hroot, splitOn_climb, partsOf, if_neg hdot, List.filterMap_append,
      hups, h.filterMap_ofField?]

/-- The directory of a file has all names of its path but the last. -/
lemma IsNamesOnly.directory_eq (h : IsNamesOnly path) :
    directory path = ⟨false, (fieldNames path).dropLast.map Part.name⟩ := by
  have hparts : ¬ ((fieldNames path).map Part.name).isEmpty = true := by
    rw [List.isEmpty_iff, List.map_eq_nil_iff]
    exact fieldNames_ne_nil path
  rw [directory, h.parse_eq, parent?, if_neg hparts, List.map_dropLast]
  rfl

end Path

namespace SymbolIndex

open CppDeps.Path

/-- **Leading up out of the directory of a file and down again** reaches any file. -/
lemma relativeTarget_climb {known source : String} (hknown : IsNamesOnly known)
    (hsource : IsNamesOnly source) :
    relativeTarget (climb (directory source).parts.length ++ known) source = known := by
  have hups : ∀ names : List String,
      (List.replicate names.length Part.up).foldl (fold false)
        ((names.map Part.name).foldl (fold false) []) = [] := by
    intro names
    rw [foldl_fold_names, ← List.map_reverse, ← List.length_reverse]
    exact foldl_fold_ups names.reverse []
  have hfolded : ((directory source).join
      (parse (climb (directory source).parts.length ++ known))).normalize = parse known := by
    rw [hknown.parse_climb, normalize_join_of_relative _ rfl, hsource.directory_eq,
      List.length_map, List.foldl_append, hups, foldl_fold_names, List.append_nil,
      List.reverse_reverse, hknown.parse_eq]
  show ((directory source).join _).normalize.render = known
  rw [hfolded, hknown.render_parse]

/-- **The laws of folding.**  A folded path has some `..`s, none of them below the root, and then names
only; it starts at the root if the path does, and folding it changes nothing.  A directory may be folded
before a path is joined to it.  Folded paths are read as they were written, and joining texts joins the
paths that they stand for, so all this is true of texts as well.  And from the directory of any source,
the path that leads up once for each part of this directory and then down to a known file is matched
with that file, where source and file have relative paths of names. -/
theorem folding_laws :
    (∀ p : Path, p.normalize.IsFolded ∧ p.normalize.isAbsolute = p.isAbsolute ∧
      p.normalize.normalize = p.normalize) ∧
    (∀ p q : Path, (p.join q).normalize = (p.normalize.join q).normalize) ∧
    (∀ path : String, parse (parse path).normalize.render = (parse path).normalize) ∧
    (∀ base name : String, parse (joinText base name) = (parse base).join (parse name)) ∧
    ∀ (index : SymbolIndex) (known source : String), known ∈ index.filePaths →
      IsNamesOnly known → IsNamesOnly source →
        index.relativeMatch (climb (directory source).parts.length ++ known) source =
          some known := by
  refine ⟨fun p => ⟨isFolded_normalize p, rfl, normalize_normalize p⟩, normalize_join,
    fun path => ?_, parse_joinText, fun index known source hmem hknown hsource => ?_⟩
  · refine parse_render fun part hpart => ?_
    obtain ⟨hread, hhere⟩ := mem_of_mem_normalize hpart
    exact (isPlain_of_mem_parse hread).resolve_left hhere
  · rw [relativeMatch, relativeTarget_climb hknown hsource, fileKey?_eq, if_pos hmem]

/-- From a source two directories deep to a header in another one. -/
theorem folding_laws_log :
    let index := ofHistory [("src/common/Log.h", { filePath := "" })]
    "src/common/Log.h" ∈ index.filePaths ∧ IsNamesOnly "src/common/Log.h" ∧
      IsNamesOnly "src/app/main.cpp" ∧
      index.relativeMatch "../../src/common/Log.h" "src/app/main.cpp" = some "src/common/Log.h" := by
  intro index
  have hmem : "src/common/Log.h" ∈ index.filePaths := by decide
  have hknown : IsNamesOnly "src/common/Log.h" := by decide
  have hsource : IsNamesOnly "src/app/main.cpp" := by decide
  have hinclude : climb (directory "src/app/main.cpp").parts.length ++ "src/common/Log.h" =
      "../../src/common/Log.h" := by decide
  exact ⟨hmem, hknown, hsource,
    hinclude ▸ folding_laws.2.2.2.2 index _ _ hmem hknown hsource⟩

end SymbolIndex

end CppDeps
