import Mathlib.Data.List.Basic
import ResourceSafety.Proofs.Logic.Readability

/-!
# Readings

A session knows applications by their texts, so it takes a term for the plain term with the same
text, if there is one.  That is the *reading* of the term.  There is only one such term, since plain
terms can be read back from their texts.  The reading of a plain term is the term itself.

A formula is read term by term.  Its reading has the same text.
-/

namespace ResourceSafety.Logic

/-! ## Terms -/

namespace Term

theorem renderArgs_congr {ts us : List Term} (h : us.map render = ts.map render) :
    renderArgs us = renderArgs ts := by
  induction ts generalizing us with
  | nil =>
      cases List.map_eq_nil_iff.mp h
      rfl
  | cons t ts ih =>
      cases us with
      | nil => cases h
      | cons u us =>
          obtain ⟨first, rest⟩ := List.cons.inj h
          rw [renderArgs, renderArgs, first, ih rest]

theorem render_apply_congr {f : String} {ts us : List Term} (h : us.map render = ts.map render) :
    (apply f us).render = (apply f ts).render := by
  have args := renderArgs_congr h
  cases ts with
  | nil => rw [List.map_eq_nil_iff.mp h]
  | cons t ts =>
      cases us with
      | nil => cases h
      | cons u us => rw [render, render, args]

open scoped Classical in
/-- The plain term with the text of a term. -/
noncomputable def reading (t : Term) : Term :=
  if h : ∃ u : Term, u.Plain ∧ u.render = t.render then h.choose else t

theorem reading_eq {t u : Term} (plain : u.Plain) (text : u.render = t.render) :
    t.reading = u := by
  have h : ∃ u : Term, u.Plain ∧ u.render = t.render := ⟨u, plain, text⟩
  rw [reading, dif_pos h]
  exact render_injective h.choose_spec.1 plain (h.choose_spec.2.trans text.symm)

theorem reading_of_plain {t : Term} (plain : t.Plain) : t.reading = t := reading_eq plain rfl

theorem render_reading (t : Term) : t.reading.render = t.render := by
  unfold reading
  split
  next h => exact h.choose_spec.2
  next => rfl

theorem render_map_reading (ts : List Term) : (ts.map reading).map render = ts.map render := by
  rw [List.map_map]
  exact List.map_congr_left fun t _ => t.render_reading

end Term

/-! ## Formulas -/

namespace Formula

theorem leaves_map {α β : Type} (g : α → β) (f : Formula α) : (f.map g).leaves = f.leaves.map g := by
  induction f using Formula.induction with
  | compare op l r => rfl
  | all fs ih | any fs ih =>
      rw [map, mapList_eq, leaves, leaves, leavesList_eq, leavesList_eq, List.flatMap_map,
        List.map_flatMap]
      exact List.flatMap_congr ih
  | not f ih => exact ih
  | truth b => rfl

theorem map_eq_self {α : Type} {g : α → α} {f : Formula α} (h : ∀ t ∈ f.leaves, g t = t) :
    f.map g = f := by
  induction f using Formula.induction with
  | compare op l r => rw [map, h l (by simp [leaves]), h r (by simp [leaves])]
  | all fs ih | any fs ih =>
      have each : fs.map (map g) = fs.map id :=
        List.map_congr_left fun f hf => ih f hf fun t ht => h t (mem_leaves_all hf ht)
      rw [map, mapList_eq, each, List.map_id]
  | not f ih => rw [map, ih h]
  | truth b => rfl

/-- The formula over the readings of its terms. -/
noncomputable def reading (f : Formula Term) : Formula Term := f.map Term.reading

/-- The text of a junction, from the texts of its formulas. -/
def junctionText (none word : String) : List String → String
  | [] => none
  | [text] => text
  | texts => "(" ++ word ++ " " ++ " ".intercalate texts ++ ")"

theorem renderList_cons (f : Formula Term) (fs : List (Formula Term)) :
    renderList (f :: fs) = " " ++ " ".intercalate ((f :: fs).map render) := by
  induction fs generalizing f with
  | nil => simp [renderList]
  | cons g fs ih =>
      rw [renderList, ih]
      simp only [List.map_cons, String.intercalate_cons_cons, String.append_assoc]

theorem render_all (fs : List (Formula Term)) :
    (Formula.all fs).render = junctionText "true" "and" (fs.map render) := by
  rcases fs with _ | ⟨f, _ | ⟨g, fs⟩⟩
  · rfl
  · rfl
  · rw [render, renderList_cons]
    · simp only [List.map_cons, junctionText, String.append_assoc]
      rfl
    · exact List.cons_ne_nil g fs

theorem render_any (fs : List (Formula Term)) :
    (Formula.any fs).render = junctionText "false" "or" (fs.map render) := by
  rcases fs with _ | ⟨f, _ | ⟨g, fs⟩⟩
  · rfl
  · rfl
  · rw [render, renderList_cons]
    · simp only [List.map_cons, junctionText, String.append_assoc]
      rfl
    · exact List.cons_ne_nil g fs

theorem render_reading (f : Formula Term) : f.reading.render = f.render := by
  induction f using Formula.induction with
  | compare op l r =>
      rw [reading, map, render, render, l.render_reading, r.render_reading]
  | all fs ih =>
      have texts : (fs.map reading).map render = fs.map render := by
        rw [List.map_map]
        exact List.map_congr_left ih
      rw [render_all, ← texts, ← render_all, reading, map, mapList_eq]
      rfl
  | any fs ih =>
      have texts : (fs.map reading).map render = fs.map render := by
        rw [List.map_map]
        exact List.map_congr_left ih
      rw [render_any, ← texts, ← render_any, reading, map, mapList_eq]
      rfl
  | not f ih =>
      rw [reading, map, render, render, ← ih]
      rfl
  | truth b => rfl

/-- A formula is read as a plain one when its terms are. -/
theorem plain_reading {f : Formula Term} (h : ∀ t ∈ f.leaves, t.reading.Plain) :
    f.reading.Plain := by
  intro t ht
  rw [reading, leaves_map] at ht
  obtain ⟨u, hu, rfl⟩ := List.mem_map.mp ht
  exact h u hu

theorem reading_of_plain {f : Formula Term} (plain : f.Plain) : f.reading = f :=
  map_eq_self fun t ht => Term.reading_of_plain (plain t ht)

theorem map_reading {fs : List (Formula Term)} (plain : ∀ f ∈ fs, f.Plain) :
    fs.map reading = fs := by
  rw [List.map_congr_left fun f hf => reading_of_plain (plain f hf)]
  exact List.map_id fs

end Formula

end ResourceSafety.Logic
