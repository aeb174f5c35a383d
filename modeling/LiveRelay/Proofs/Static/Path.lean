import LiveRelay.Static.Path

/-! # What the paths of the bundle mean

A request path is resolved as its segments say, the parts between its slashes. It is refused if it
begins at the top of the file system or if a segment leads up, and otherwise it goes through its
segments but for those that lead nowhere. A path that is accepted goes through ordinary names only,
so nothing in it leaves the directory at which it is read, and it resolves to itself.
-/

namespace LiveRelay.BundlePath

/-- The parts of a path between its slashes. -/
def segments (path : String) : List (List Char) := path.toList.splitOn '/'

/-- Whether a segment leads to another place. -/
def moves (name : List Char) : Bool := decide (name ≠ [] ∧ name ≠ ['.'])

/-- A name under which something may lie in a directory. -/
structure Ordinary (name : List Char) : Prop where
  moves : moves name = true
  onward : name ≠ ['.', '.']
  whole : '/' ∉ name

/-- Goes one segment on in a file system; a place is given by the names on the way from the top. -/
def go (place : List (List Char)) (name : List Char) : List (List Char) :=
  if moves name then if name = ['.', '.'] then place.dropLast else place ++ [name] else place

/-- The place to which segments lead from another place. -/
def follow (place : List (List Char)) (names : List (List Char)) : List (List Char) :=
  names.foldl go place

/-- The place to which a path leads that is read at a place. One that begins with a slash is read at
the top. -/
def placeFrom (place : List (List Char)) (path : String) : List (List Char) :=
  follow (if path.toList.head? = some '/' then [] else place) (segments path)

/-- No segment has a slash in it. -/
theorem slash_notMem_of_mem_splitOn {path name : List Char} (member : name ∈ path.splitOn '/') :
    '/' ∉ name := by
  induction path generalizing name with
  | nil =>
    rw [List.splitOn_nil, List.mem_singleton] at member
    simp [member]
  | cons c path ih =>
    rw [List.splitOn_cons_eq_if_modifyHead] at member
    split at member
    · rcases List.mem_cons.mp member with rfl | later
      · exact List.not_mem_nil
      · exact ih later
    · next other =>
      obtain ⟨first, rest, split⟩ := List.exists_cons_of_ne_nil (path.splitOn_ne_nil '/')
      rw [split] at member ih
      rcases List.mem_cons.mp member with rfl | later
      · have none : '/' ∉ first := ih List.mem_cons_self
        rintro (_ | ⟨_, later⟩)
        · exact other rfl
        · exact none later
      · exact ih (List.mem_cons_of_mem first later)

/-- A path is walked segment by segment. -/
theorem walk?_eq_foldlM (names : List (List Char)) {name : List Char} (whole : '/' ∉ name)
    (path : List Char) : walk? names name path = ((name ++ path).splitOn '/').foldlM step? names := by
  induction path generalizing names name with
  | nil =>
    rw [List.append_nil, List.splitOn_eq_singleton whole, walk?, List.foldlM_cons]
    cases step? names name <;> rfl
  | cons c path ih =>
    rw [walk?]
    split
    · next slash =>
      rw [slash, List.splitOn_append_cons_self, List.splitOn_eq_singleton whole,
        List.singleton_append, List.foldlM_cons]
      congr 1
      funext names
      exact ih names List.not_mem_nil
    · next other =>
      have longer : '/' ∉ name ++ [c] := by simp [whole, eq_comm, other]
      rw [ih names longer, List.append_assoc, List.singleton_append]

/-- Steps that lead nowhere are left out, and one that leads up spoils the walk. -/
theorem foldlM_step? (names segments : List (List Char)) : segments.foldlM step? names =
    if ['.', '.'] ∈ segments then none else some (names ++ segments.filter moves) := by
  induction segments generalizing names with
  | nil => simp
  | cons name rest ih =>
    rw [List.foldlM_cons, step?]
    split
    · next still =>
      have different : ['.', '.'] ≠ name := by rcases still with rfl | rfl <;> decide
      have left : moves name = false := decide_eq_false fun ⟨here, same⟩ => still.elim here same
      simp [ih, different, left]
    · next onward =>
      split
      · next up => simp [up]
      · next other =>
        have kept : moves name = true := by simpa [moves] using onward
        simp [ih, kept, Ne.symm other]

/-- A request path is found by its segments. -/
theorem resolve?_eq (path : String) : resolve? path =
    if path.toList.head? = some '/' ∨ ['.', '.'] ∈ segments path then none
    else some ⟨(segments path).filter moves ++
      if path.toList = [] ∨ path.toList.getLast? = some '/' then [indexDocument] else []⟩ := by
  have walked := walk?_eq_foldlM [] List.not_mem_nil path.toList
  rw [List.nil_append, foldlM_step?, List.nil_append, ← segments] at walked
  have directory : namesDirectory path.toList = true ↔
      path.toList = [] ∨ path.toList.getLast? = some '/' := by
    simp [namesDirectory]
  unfold resolve?
  dsimp only
  rw [walked]
  by_cases top : path.toList.head? = some '/'
  · rw [if_pos top, if_pos (Or.inl top)]
  · rw [if_neg top]
    by_cases up : ['.', '.'] ∈ segments path
    · rw [if_pos up, if_pos (Or.inr up), Option.map_none]
    · rw [if_neg up, if_neg (not_or.mpr ⟨top, up⟩), Option.map_some]
      simp only [directory]
      split
      · rfl
      · rw [List.append_nil]

theorem ordinary_indexDocument : Ordinary indexDocument := ⟨by decide, by decide, by decide⟩

/-- A path that is accepted goes through ordinary names. -/
theorem ordinary_of_resolve? {path : String} {p : BundlePath} (found : resolve? path = some p)
    {name : List Char} (member : name ∈ p.names) : Ordinary name := by
  rw [resolve?_eq] at found
  split at found
  · cases found
  · next accepted =>
    cases found
    rcases List.mem_append.mp member with segment | document
    · obtain ⟨here, moves⟩ := List.mem_filter.mp segment
      refine ⟨moves, ?_, slash_notMem_of_mem_splitOn here⟩
      rintro rfl
      exact accepted (.inr here)
    · split at document
      · rw [List.mem_singleton.mp document]
        exact ordinary_indexDocument
      · cases document

section Ordinary

variable {names : List (List Char)} (ordinary : ∀ name ∈ names, Ordinary name)
include ordinary

/-- Ordinary names lead down one by one. -/
theorem follow_of_ordinary (place : List (List Char)) : follow place names = place ++ names := by
  induction names generalizing place with
  | nil => rw [follow, List.foldl_nil, List.append_nil]
  | cons name rest ih =>
    obtain ⟨moves, onward, -⟩ := ordinary name List.mem_cons_self
    have down : go place name = place ++ [name] := by rw [go, if_pos moves, if_neg onward]
    have later := ih (fun n member => ordinary n (List.mem_cons_of_mem name member)) (place ++ [name])
    rw [follow, List.foldl_cons, down, ← follow, later, List.append_assoc, List.singleton_append]

theorem filter_moves_of_ordinary : names.filter moves = names :=
  List.filter_eq_self.mpr fun name member => (ordinary name member).moves

/-- The segments of a text are the names that it was made of. -/
theorem segments_text (nonempty : names ≠ []) : segments (text ⟨names⟩) = names := by
  rw [segments, text, String.toList_ofList]
  exact List.splitOn_intercalate '/' (fun name member => (ordinary name member).whole) nonempty

end Ordinary

/-- A path that begins or ends at a slash has an empty segment. -/
theorem nil_mem_splitOn {path : List Char}
    (edge : path.head? = some '/' ∨ path = [] ∨ path.getLast? = some '/') :
    [] ∈ path.splitOn '/' := by
  rcases edge with first | rfl | last
  · obtain ⟨rest, rfl⟩ := List.head?_eq_some_iff.mp first
    have split := List.splitOn_append_cons_self (a := '/') [] rest
    rw [List.nil_append] at split
    simp [split]
  · simp
  · obtain ⟨before, rfl⟩ := List.getLast?_eq_some_iff.mp last
    simp [List.splitOn_append_cons_self]

section Text

variable {p : BundlePath} (ordinary : ∀ name ∈ p.names, Ordinary name)
include ordinary

/-- The text of a path with names neither begins nor ends at a slash. -/
theorem edges_text (nonempty : p.names ≠ []) : p.text.toList.head? ≠ some '/' ∧
    ¬(p.text.toList = [] ∨ p.text.toList.getLast? = some '/') := by
  have full : [] ∉ segments p.text := by
    rw [segments_text ordinary nonempty]
    intro empty
    exact absurd (ordinary [] empty).moves (by decide)
  exact ⟨fun first => full (nil_mem_splitOn (.inl first)),
    fun edge => full (nil_mem_splitOn (.inr edge))⟩

/-- A path of ordinary names is found at its own text. -/
theorem resolve?_text (nonempty : p.names ≠ []) : resolve? p.text = some p := by
  obtain ⟨inner, outer⟩ := edges_text ordinary nonempty
  have onward : ['.', '.'] ∉ p.names := fun up => (ordinary _ up).onward rfl
  rw [resolve?_eq, segments_text ordinary nonempty, if_neg (not_or.mpr ⟨inner, onward⟩),
    if_neg outer, filter_moves_of_ordinary ordinary, List.append_nil]

/-- The text of ordinary names is read at any place as the way down through them. -/
theorem placeFrom_text (place : List (List Char)) : placeFrom place p.text = place ++ p.names ∧
    ∀ k, place <+: follow place ((segments p.text).take k) := by
  by_cases none : p.names = []
  · have empty : p.text = "" := by simp [text, none]
    have still : go place [] = place := rfl
    refine ⟨by simp [placeFrom, segments, empty, none, follow, still], fun k => ?_⟩
    cases k <;> simp [segments, empty, follow, still]
  · obtain ⟨inner, -⟩ := edges_text ordinary none
    rw [placeFrom, if_neg inner, segments_text ordinary none]
    refine ⟨follow_of_ordinary ordinary place, fun k => ?_⟩
    have first : ∀ name ∈ p.names.take k, Ordinary name := fun name member =>
      ordinary name (List.mem_of_mem_take member)
    rw [follow_of_ordinary first]
    exact List.prefix_append place _

end Text

/-- A directory stands for its index document. -/
theorem resolve?_directory (path : String) :
    resolve? (path ++ "/") = resolve? (path ++ "/index.html") := by
  have directory : segments (path ++ "/") = segments path ++ [[]] := by
    rw [segments, String.toList_append]
    exact List.splitOn_append_cons_self path.toList []
  have document : segments (path ++ "/index.html") = segments path ++ [indexDocument] := by
    have alone : indexDocument.splitOn '/' = [indexDocument] := by decide
    rw [segments, String.toList_append, ← alone]
    exact List.splitOn_append_cons_self path.toList indexDocument
  have still : moves [] = false := by decide
  have moved : moves indexDocument = true := by decide
  have named : ['.', '.'] ≠ indexDocument := by decide
  rw [resolve?_eq, resolve?_eq, directory, document]
  simp [still, moved, named]

/-- A request path is resolved as its segments say: it is refused exactly if it begins at the top or
if a segment leads up, and otherwise it goes through those segments that lead somewhere, and on to
the index document if it names a directory. Whatever it resolves to goes through ordinary names, leads
down from every place and never out of it, and resolves to itself unless it is empty. -/
theorem resolve?_means (path : String) :
    (resolve? path = none ↔ path.toList.head? = some '/' ∨ ['.', '.'] ∈ segments path) ∧
    resolve? (path ++ "/") = resolve? (path ++ "/index.html") ∧
    ∀ p, resolve? path = some p →
      p.names = (segments path).filter (fun name => name ≠ [] ∧ name ≠ ['.']) ++
        (if path.toList = [] ∨ path.toList.getLast? = some '/' then ["index.html".toList] else []) ∧
      (∀ name ∈ p.names, Ordinary name) ∧
      (∀ root, placeFrom root p.text = root ++ p.names ∧
        ∀ k, root <+: follow root ((segments p.text).take k)) ∧
      (p.names ≠ [] → resolve? p.text = some p) := by
  refine ⟨?_, resolve?_directory path, ?_⟩
  · rw [resolve?_eq]
    split <;> simp_all
  · intro p found
    have ordinary : ∀ name ∈ p.names, Ordinary name := fun _ => ordinary_of_resolve? found
    refine ⟨?_, ordinary, placeFrom_text ordinary, resolve?_text ordinary⟩
    rw [resolve?_eq] at found
    split at found
    · cases found
    · cases found
      rfl

/-- A path with a doubled slash and a step to the same place. -/
theorem resolve?_means_docs :
    resolve? "docs//./a b/" = some ⟨["docs".toList, "a b".toList, "index.html".toList]⟩ ∧
    (∀ root, root <+: placeFrom root "docs/a b/index.html") ∧
    resolve? "docs/a b/index.html" = resolve? "docs//./a b/" := by
  have found : resolve? "docs//./a b/" =
      some ⟨["docs".toList, "a b".toList, "index.html".toList]⟩ := by decide
  obtain ⟨-, -, down, again⟩ := (resolve?_means "docs//./a b/").2.2 _ found
  have text : text ⟨["docs".toList, "a b".toList, "index.html".toList]⟩ = "docs/a b/index.html" := by
    decide
  rw [text] at down again
  refine ⟨found, fun root => ?_, (again (by decide)).trans found.symm⟩
  rw [(down root).1]
  exact List.prefix_append root _

end LiveRelay.BundlePath
