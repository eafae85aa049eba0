import ResourceSafety.Command.Selection
import ResourceSafety.Proofs.Path
import ResourceSafety.Watch.Targets

/-!
# What a watched directory takes in

A path lies inside a directory when it is the directory joined with a way down
(`Path.Descends`).  A watch compares elements: it takes the way from the directory to the changed
path, and lets pass what does not begin with two dots.

A way that begins with `..` climbs out of the directory.  But the name of a file may begin with two
dots as well, and the traces below such a name are not noticed
(`accepts_iff_descends`, `dottedName_unnoticed`).
-/

namespace ResourceSafety.WatchTargets

open ResourceSafety.Path (Descends under ofString)

variable {isDirectory : String → Bool} {arguments : List String}

/-- The targets that directories name. -/
theorem ofArguments_of_directories (plain : ∀ a ∈ arguments, Glob.isPattern a = false)
    (directories : ∀ a ∈ arguments, isDirectory (cleanPath a) = true) :
    ofArguments isDirectory arguments =
      { roots := arguments.map cleanPath, directories := arguments.map cleanPath } := by
  have carried (w : WatchTargets) : arguments.foldl (add isDirectory) w =
      { w with roots := w.roots ++ arguments.map cleanPath
               directories := w.directories ++ arguments.map cleanPath } := by
    induction arguments generalizing w with
    | nil => simp
    | cons a arguments ih =>
      obtain ⟨plainA, plain⟩ := List.forall_mem_cons.mp plain
      obtain ⟨directoryA, directories⟩ := List.forall_mem_cons.mp directories
      rw [List.foldl_cons, ih plain directories]
      simp [add, plainA, directoryA]
  exact carried {}

/-- The way from a directory to a path inside it. -/
theorem relative?_under {way : String} (down : Descends way) (directory : String) :
    (ofString directory).relative? (under directory way) = some (ofString way) := by
  have relative : (ofString way).rooted = false := down.relative
  rw [Path.under_of_descends down, Path.relative?, if_pos (beq_self_eq_true _),
    Path.relativeElements?_append, Option.map_some, ← relative]

/-- A way that does not begin with two dots goes down. -/
theorem exists_descends {directory path : String} {way : Path}
    (found : (ofString directory).relative? (ofString path) = some way)
    (level : way.render.startsWith ".." = false) :
    Descends way.render ∧ under directory way.render = ofString path ∧
      cleanPath way.render = way.render := by
  rw [Path.relative?] at found
  split at found
  next same =>
    obtain ⟨es, elements, rfl⟩ := Option.map_eq_some_iff.mp found
    have other : es.head? ≠ some ".." := by
      intro climbs
      obtain ⟨rest, rfl⟩ := List.head?_eq_some_iff.mp climbs
      rw [Path.startsWith_render_up] at level
      cases level
    have target := (Path.eq_append_of_relativeElements? elements).resolve_right other
    have names : ∀ e ∈ es, Path.IsName e := by
      have piled := Path.piled_ofString path
      rw [target, List.reverse_append] at piled
      exact piled.names_of_head? other
    have down := Path.descends_render names
    have back : ofString (Path.render ⟨false, es⟩) = ⟨false, es⟩ :=
      Path.ofString_render (.of_names fun e mem => names e (List.mem_reverse.mp mem))
    refine ⟨down, ?_, by rw [cleanPath, back]⟩
    rw [Path.under_of_descends down, back, beq_iff_eq.mp same, ← target]
  next => cases found

/-- Of what lies in a directory, a watch takes in all but what begins with two dots. -/
theorem inside_iff_descends (directory path : String) :
    inside (cleanPath directory) path = true ↔
      ∃ way, Descends way ∧ under directory way = ofString path ∧
        (cleanPath way).startsWith ".." = false := by
  rw [inside, cleanPath, Path.ofString_render_ofString]
  constructor
  · intro noticed
    split at noticed
    next way found =>
      have level : way.render.startsWith ".." = false := by simpa using noticed
      obtain ⟨down, target, clean⟩ := exists_descends found level
      exact ⟨way.render, down, target, clean.symm ▸ level⟩
    next => cases noticed
  · rintro ⟨way, down, target, level⟩
    rw [← target, relative?_under down]
    simpa [cleanPath] using level

/-- Let directories be watched, and let a changed clean path have the extension of a trace.  It is
noticed if and only if it is one of the directories joined with a way down that does not begin with
two dots. -/
theorem accepts_iff_descends (plain : ∀ a ∈ arguments, Glob.isPattern a = false)
    (directories : ∀ a ∈ arguments, isDirectory (cleanPath a) = true) {path : String}
    (clean : cleanPath path = path) (trace : extension path = ".yaml" ∨ extension path = ".yml") :
    (ofArguments isDirectory arguments).accepts path = true ↔
      ∃ a ∈ arguments, ∃ way, Descends way ∧ (under a way).render = path ∧
        (cleanPath way).startsWith ".." = false := by
  have yaml : isYamlName path = true := by simpa [isYamlName] using trace
  rw [ofArguments_of_directories plain directories, accepts, clean]
  simp only [List.contains_nil, List.any_nil, Bool.or_self, Bool.false_or, yaml, Bool.true_and,
    List.any_map, List.any_eq_true, Function.comp_apply, inside_iff_descends]
  refine exists_congr fun a => and_congr_right fun _ => exists_congr fun way =>
    and_congr_right fun down => and_congr_left' ?_
  constructor
  · intro target
    rw [target]
    exact clean
  · intro target
    rw [← target, Path.ofString_render_under]

/-- A name that begins with two dots is noticed further down, below a directory above the present
one. -/
theorem accepts_iff_descends_shared :
    let isDirectory : String → Bool := fun d => d == "traces" || d == "../shared"
    let path := "../shared/net/..old/a.yml"
    (∀ a ∈ ["traces/", "../shared"], Glob.isPattern a = false) ∧
      (∀ a ∈ ["traces/", "../shared"], isDirectory (cleanPath a) = true) ∧ cleanPath path = path ∧
      extension path = ".yml" ∧ Descends "net/..old/a.yml" ∧
      (under "../shared" "net/..old/a.yml").render = path ∧
      (ofArguments isDirectory ["traces/", "../shared"]).accepts path = true := by
  intro isDirectory path
  have plain : ∀ a ∈ ["traces/", "../shared"], Glob.isPattern a = false := by decide
  have directories : ∀ a ∈ ["traces/", "../shared"], isDirectory (cleanPath a) = true := by decide
  have clean : cleanPath path = path := by decide
  have trace : extension path = ".yml" := by decide
  have down : Descends "net/..old/a.yml" := ⟨rfl, by decide⟩
  have target : (under "../shared" "net/..old/a.yml").render = path := by decide
  exact ⟨plain, directories, clean, trace, down, target,
    (accepts_iff_descends plain directories clean (.inr trace)).mpr
      ⟨"../shared", by simp, "net/..old/a.yml", down, target, by decide +kernel⟩⟩

/-- A trace whose name begins with two dots lies in the directory `d`.  A check of `d` selects it,
but a watch of `d` does not notice it. -/
theorem dottedName_unnoticed :
    let tree := FileTree.addFile {} ["d", "..a.yaml"] ""
    let path := "d/..a.yaml"
    Glob.isPattern "d" = false ∧ tree.isDirectory (cleanPath "d") = true ∧ cleanPath path = path ∧
      extension path = ".yaml" ∧ (∃ way, Descends way ∧ (under "d" way).render = path) ∧
      (tree.select ["d"]).toOption = some [path] ∧
      (ofArguments tree.isDirectory ["d"]).accepts path = false :=
  ⟨by decide, by decide +kernel, by decide, by decide,
    ⟨"..a.yaml", ⟨rfl, by decide⟩, by decide⟩, by decide +kernel, by decide +kernel⟩

end ResourceSafety.WatchTargets
