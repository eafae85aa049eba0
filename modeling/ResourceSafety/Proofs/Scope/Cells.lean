import Mathlib.Data.List.Forall2
import Mathlib.Data.List.Nodup

/-!
# Scopes as stacks of cells

The ownership tracker and the capability context both keep named things in a stack
of scopes, and tell them apart by number.  What both have in common is said here
once: a *cell* is such a thing with the part of it that changes.

*Outlines.*  The outline of a stack is what is left of it when the values are
forgotten.  Accesses, rewinds and joins only change values (`adjust`).

*Matching and covering.*  Two stacks of the same names are compared place by place.
Numbers take no part in it, since two walks of one program may number its names
differently; but the relation of the values may depend on the number that the first
stack has there.  Stacks that match still do so after both change the value that one
name means (`Matches.assign`), and after the values of the first are replaced by others
that are related to what they were related to (`Matches.mend`).
-/

namespace ResourceSafety

/-- A named value of a scope with the number that tells it apart. -/
structure Cell (α : Type) where
  id : Nat
  name : String
  value : α

/-- The cells of the open scopes, innermost scope first. -/
abbrev Cells (α : Type) := List (List (Cell α))

namespace Cells

variable {α : Type}

/-- The numbers of all cells. -/
def ids (s : Cells α) : List Nat := s.flatten.map (·.id)

/-- The numbers and names of all cells, by scope. -/
def outline (s : Cells α) : List (List (Nat × String)) := s.map (·.map fun c => (c.id, c.name))

/-- The cell that a name means. -/
def find? (s : Cells α) (name : String) : Option (Cell α) := s.flatten.find? (·.name == name)

/-- The stack with every value changed. -/
def adjust (s : Cells α) (f : Nat → α → α) : Cells α :=
  s.map (·.map fun c => { c with value := f c.id c.value })

/-- The stack with the value of one number replaced. -/
def assign (s : Cells α) (id : Nat) (v : α) : Cells α :=
  s.adjust fun i now => if i = id then v else now

/-- The stack with one more cell in its innermost scope. -/
def add (s : Cells α) (c : Cell α) : Cells α :=
  match s with
  | [] => []
  | inner :: outer => (inner ++ [c]) :: outer

/-- The names and values of all cells, by scope. -/
def contents (s : Cells α) : List (List (String × α)) := s.map (·.map fun c => (c.name, c.value))

theorem flatten_contents (s : Cells α) :
    s.contents.flatten = s.flatten.map fun c => (c.name, c.value) := by
  simp [contents, List.map_flatten]

/-! ## Outlines -/

theorem outline_adjust (s : Cells α) (f : Nat → α → α) : (s.adjust f).outline = s.outline := by
  simp [outline, adjust, Function.comp_def]

theorem adjust_same (s : Cells α) : (s.adjust fun _ now => now) = s := by
  simp [adjust]

theorem exists_of_mem_adjust {s : Cells α} {f : Nat → α → α} {c : Cell α}
    (mem : c ∈ (s.adjust f).flatten) : ∃ d ∈ s.flatten, c = { d with value := f d.id d.value } := by
  rw [adjust, ← List.map_flatten] at mem
  obtain ⟨d, known, rfl⟩ := List.mem_map.mp mem
  exact ⟨d, known, rfl⟩

theorem outline_push (s : Cells α) : outline ([] :: s) = [] :: s.outline := rfl

theorem outline_tail (s : Cells α) : outline s.tail = s.outline.tail := by
  simp [outline]

theorem outline_add_tail (s : Cells α) (c : Cell α) : (s.add c).outline.tail = s.outline.tail := by
  cases s <;> rfl

theorem flatten_outline (s : Cells α) :
    s.outline.flatten = s.flatten.map fun c => (c.id, c.name) := by
  simp [outline, List.map_flatten]

theorem ids_eq_outline (s : Cells α) : s.ids = s.outline.flatten.map Prod.fst := by
  rw [ids, flatten_outline, List.map_map]
  rfl

theorem ids_add {s : Cells α} (h : s ≠ []) (c : Cell α) : (s.add c).ids.Perm (c.id :: s.ids) := by
  cases s with
  | nil => exact absurd rfl h
  | cons inner outer =>
    simp only [ids, add, List.flatten_cons, List.map_append, List.map_cons,
      List.append_assoc, List.singleton_append]
    exact List.perm_middle

theorem ids_tail_sublist (s : Cells α) : (ids s.tail).Sublist s.ids := by
  cases s with
  | nil => exact List.Sublist.refl _
  | cons inner outer =>
    simp only [ids, List.tail_cons, List.flatten_cons, List.map_append]
    exact List.sublist_append_right _ _

/-! ## Look-ups by number -/

/-- Where numbers are not repeated, each one leads back to its value. -/
theorem lookup_of_mem {β γ : Type} {l : List β} {key : β → Nat} {value : β → γ}
    (distinct : (l.map key).Nodup) {b : β} (mem : b ∈ l) :
    (l.map fun b => (key b, value b)).lookup (key b) = some (value b) := by
  induction l with
  | nil => cases mem
  | cons a l ih =>
    simp only [List.map_cons, List.nodup_cons] at distinct
    rw [List.map_cons, List.lookup_cons]
    cases mem with
    | head => simp
    | tail _ mem =>
      have other : key b ≠ key a := fun same =>
        distinct.1 (same ▸ List.mem_map_of_mem mem)
      simp only [beq_eq_false_iff_ne.mpr other]
      exact ih distinct.2 mem

theorem mem_of_lookup {β : Type} {l : List (Nat × β)} {i : Nat} {b : β}
    (h : l.lookup i = some b) : (i, b) ∈ l := by
  obtain ⟨before, after, rfl, -⟩ := List.lookup_eq_some_iff.mp h
  exact List.mem_append_right _ List.mem_cons_self

/-- What is held by the list that is asked for by its place. -/
theorem exists_of_mem_getD {β : Type} {ls : List (List β)} {index : Nat} {b : β}
    (mem : b ∈ ls[index]?.getD []) : ∃ l ∈ ls, b ∈ l := by
  cases found : ls[index]? with
  | none => simp [found] at mem
  | some l =>
    rw [found] at mem
    exact ⟨l, List.mem_of_getElem? found, mem⟩

theorem find?_of_mem {β : Type} {l : List β} {key : β → Nat} (distinct : (l.map key).Nodup)
    {b : β} (mem : b ∈ l) : l.find? (key · == key b) = some b := by
  cases found : l.find? (key · == key b) with
  | none => exact absurd (List.find?_eq_none.mp found b mem) (by simp)
  | some a =>
    have same : key a = key b := by simpa using List.find?_some found
    rw [List.inj_on_of_nodup_map distinct (List.mem_of_find?_eq_some found) mem same]

/-- Stacks with one outline have the same numbers, and under them the same names. -/
theorem exists_of_outline {s e : Cells α} (same : s.outline = e.outline) {c : Cell α}
    (mem : c ∈ e.flatten) : ∃ c' ∈ s.flatten, c'.id = c.id ∧ c'.name = c.name := by
  have known : (c.id, c.name) ∈ s.outline.flatten := by
    rw [same, flatten_outline]
    exact List.mem_map_of_mem mem
  rw [flatten_outline] at known
  obtain ⟨c', mem', alike⟩ := List.mem_map.mp known
  exact ⟨c', mem', congrArg Prod.fst alike, congrArg Prod.snd alike⟩

/-- A cell that gets the value it has. -/
theorem assign_found {s : Cells α} (distinct : s.ids.Nodup) {name : String} {c : Cell α}
    (h : s.find? name = some c) : s.assign c.id c.value = s := by
  refine (List.map_congr_left fun scope ms => ?_).trans (List.map_id s)
  refine (List.map_congr_left fun x mx => ?_).trans (List.map_id scope)
  have mem : x ∈ s.flatten := List.mem_flatten.mpr ⟨scope, ms, mx⟩
  by_cases same : x.id = c.id
  · have here : x = c := List.inj_on_of_nodup_map distinct mem (List.mem_of_find?_eq_some h) same
    simp [here]
  · simp [same]

/-! ## Properties of all values -/

/-- Every value has the property, under its name. -/
def All (P : String → α → Prop) (s : Cells α) : Prop := ∀ c ∈ s.flatten, P c.name c.value

namespace All

variable {P : String → α → Prop} {s : Cells α}

theorem tail (h : s.All P) : All P s.tail := by
  cases s with
  | nil => exact h
  | cons inner outer => exact fun c mem => h c (List.mem_append_right _ mem)

theorem add (h : s.All P) {c : Cell α} (new : P c.name c.value) : (s.add c).All P := by
  cases s with
  | nil => exact h
  | cons inner outer =>
    intro x mem
    simp only [Cells.add, List.flatten_cons, List.mem_append, List.mem_singleton] at mem
    obtain (old | rfl) | old := mem
    · exact h x (List.mem_append_left _ old)
    · exact new
    · exact h x (List.mem_append_right _ old)

theorem adjust {f : Nat → α → α} (h : ∀ c ∈ s.flatten, P c.name (f c.id c.value)) :
    (s.adjust f).All P := by
  intro x mem
  simp only [Cells.adjust, ← List.map_flatten] at mem
  obtain ⟨c, mc, rfl⟩ := List.mem_map.mp mem
  exact h c mc

/-- One name means a new value. -/
theorem assign (h : s.All P) (distinct : s.ids.Nodup) {name : String} {c : Cell α}
    (found : s.find? name = some c) {v : α} (new : P name v) : (s.assign c.id v).All P := by
  refine All.adjust fun x mem => ?_
  by_cases same : x.id = c.id
  · obtain rfl : x = c :=
      List.inj_on_of_nodup_map distinct mem (List.mem_of_find?_eq_some found) same
    have named : x.name = name := by simpa using List.find?_some found
    simpa [named] using new
  · simpa [same] using h x mem

end All

/-! ## Matching -/

/-- The cells have one name, and the value of the first is related to that of the second.  The
relation may depend on the number of the first cell. -/
def Linked (R : Nat → α → α → Prop) (c d : Cell α) : Prop :=
  c.name = d.name ∧ R c.id c.value d.value

/-- The stacks have the same names in the same places, and their values are related by place. -/
def Matches (R : Nat → α → α → Prop) (s p : Cells α) : Prop :=
  List.Forall₂ (List.Forall₂ (Linked R)) s p

/-- A relation on the places of two stacks, seen from all their cells in a row. -/
theorem forall₂_of_flatten {β : Type} {P Q : β → β → Prop} {s p : List (List β)}
    (shape : List.Forall₂ (List.Forall₂ P) s p) (row : List.Forall₂ Q s.flatten p.flatten) :
    List.Forall₂ (List.Forall₂ Q) s p := by
  induction shape with
  | nil => exact .nil
  | @cons inner inner' outer outer' first _ ih =>
    simp only [List.flatten_cons] at row
    have head := List.forall₂_take_append _ _ _ row
    have rest := List.forall₂_drop_append _ _ _ row
    rw [← first.length_eq, List.take_left] at head
    rw [← first.length_eq, List.drop_left] at rest
    exact .cons head (ih rest)

/-- Two rows that are related, and two that are like them. -/
theorem forall₂_of_map_eq {β γ : Type} {P Q : β → β → Prop} {f : β → γ} {l m l' m' : List β}
    (row : List.Forall₂ P l m) (left : l'.map f = l.map f) (right : m'.map f = m.map f)
    (keeps : ∀ x y x' y', P x y → f x' = f x → f y' = f y → Q x' y') : List.Forall₂ Q l' m' := by
  induction row generalizing l' m' with
  | nil =>
    rw [List.map_eq_nil_iff.mp left, List.map_eq_nil_iff.mp right]
    exact .nil
  | @cons x y l m first _ ih =>
    obtain ⟨x', rest, rfl, hx, left⟩ := List.map_eq_cons_iff.mp left
    obtain ⟨y', rest', rfl, hy, right⟩ := List.map_eq_cons_iff.mp right
    exact .cons (keeps x y x' y' first hx hy) (ih left right)

/-- What is found in the first of two rows has its counterpart in the second. -/
theorem exists_find?_of_forall₂ {β : Type} {P : β → β → Prop} {hit : β → Bool} {l m : List β}
    {c : β} (row : List.Forall₂ P l m) (alike : ∀ x y, P x y → hit x = hit y)
    (found : l.find? hit = some c) : ∃ d, m.find? hit = some d := by
  induction row with
  | nil => cases found
  | @cons x y l m first _ ih =>
    rw [List.find?_cons] at found ⊢
    rw [← alike x y first]
    cases here : hit x with
    | true => exact ⟨y, rfl⟩
    | false =>
      simp only [here] at found
      exact ih found

/-- Two rows are searched for the same thing.  What is found first stands in the same
place of both. -/
theorem found_together {β : Type} {P : β → β → Prop} {key : β → Nat} {hit : β → Bool}
    {l m : List β} {c d : β} (row : List.Forall₂ P l m) (alike : ∀ x y, P x y → hit x = hit y)
    (distinct : (l.map key).Nodup) (distinct' : (m.map key).Nodup)
    (found : l.find? hit = some c) (found' : m.find? hit = some d) :
    P c d ∧ List.Forall₂ (fun x y => P x y ∧ (key x = key c ↔ key y = key d)) l m := by
  induction row with
  | nil => cases found
  | @cons x y l m first rest ih =>
    simp only [List.map_cons, List.nodup_cons] at distinct distinct'
    rw [List.find?_cons] at found found'
    rw [← alike x y first] at found'
    cases here : hit x with
    | true =>
      -- both are found here, and no later place has their numbers
      simp only [here, Option.some.injEq] at found found'
      subst found found'
      refine ⟨first, .cons ⟨first, by simp⟩ ?_⟩
      refine (List.forall₂_iff_zip.mpr ⟨rest.length_eq, fun {x' y'} mem => ?_⟩)
      have pair := List.forall₂_zip rest mem
      have left : key x' ≠ key x := fun same =>
        distinct.1 (same ▸ List.mem_map_of_mem (List.of_mem_zip mem).1)
      have right : key y' ≠ key y := fun same =>
        distinct'.1 (same ▸ List.mem_map_of_mem (List.of_mem_zip mem).2)
      exact ⟨pair, by simp [left, right]⟩
    | false =>
      simp only [here] at found found'
      obtain ⟨values, places⟩ := ih distinct.2 distinct'.2 found found'
      have left : key x ≠ key c := fun same =>
        distinct.1 (same ▸ List.mem_map_of_mem (List.mem_of_find?_eq_some found))
      have right : key y ≠ key d := fun same =>
        distinct'.1 (same ▸ List.mem_map_of_mem (List.mem_of_find?_eq_some found'))
      exact ⟨values, .cons ⟨first, by simp [left, right]⟩ places⟩

namespace Matches

variable {R Q : Nat → α → α → Prop} {s p e : Cells α}

theorem imp (h : s.Matches R p) (weaker : ∀ i v w, R i v w → Q i v w) : s.Matches Q p :=
  List.Forall₂.imp (fun _ _ row => row.imp fun _ _ pair => ⟨pair.1, weaker _ _ _ pair.2⟩) h

/-- Stacks match by names alone where the values may be any. -/
theorem of_outline {s' p' : Cells α} (h : s.Matches R p) (left : s'.outline = s.outline)
    (right : p'.outline = p.outline) (any : ∀ i v w, Q i v w) : s'.Matches Q p' := by
  refine forall₂_of_map_eq h left right fun inner inner' row row' pairs left right => ?_
  refine forall₂_of_map_eq pairs left right fun c d c' d' pair left right => ⟨?_, any _ _ _⟩
  exact (congrArg Prod.snd left).trans (pair.1.trans (congrArg Prod.snd right).symm)

theorem push (h : s.Matches R p) : Matches R ([] :: s) ([] :: p) := .cons .nil h

theorem tail (h : s.Matches R p) : Matches R s.tail p.tail := by
  cases h with
  | nil => exact .nil
  | cons _ rest => exact rest

theorem flatten (h : s.Matches R p) : List.Forall₂ (Linked R) s.flatten p.flatten := by
  induction h with
  | nil => exact .nil
  | cons inner _ ih => exact List.rel_append inner ih

theorem add (h : s.Matches R p) {c d : Cell α} (new : Linked R c d) :
    (s.add c).Matches R (p.add d) := by
  cases h with
  | nil => exact .nil
  | cons inner outer => exact .cons (List.rel_append inner (.cons new .nil)) outer

/-- Every cell of the innermost scope of the second stack has its counterpart. -/
theorem exists_mem_head (h : s.Matches R p) {d : Cell α} (mem : d ∈ p.headD []) :
    ∃ c ∈ s.headD [], Linked R c d := by
  cases h with
  | nil => cases mem
  | cons inner _ =>
    induction inner with
    | nil => cases mem
    | cons pair _ ih =>
      cases mem with
      | head => exact ⟨_, List.mem_cons_self, pair⟩
      | tail _ mem =>
        obtain ⟨c, mc, pair⟩ := ih mem
        exact ⟨c, List.mem_cons_of_mem _ mc, pair⟩

/-- Every cell of the innermost scope of the first stack has its counterpart. -/
theorem exists_pair_head (h : s.Matches R p) {c : Cell α} (mem : c ∈ s.headD []) :
    ∃ d ∈ p.headD [], Linked R c d := by
  cases h with
  | nil => cases mem
  | cons inner _ =>
    induction inner with
    | nil => cases mem
    | cons pair _ ih =>
      cases mem with
      | head => exact ⟨_, List.mem_cons_self, pair⟩
      | tail _ mem =>
        obtain ⟨d, md, pair⟩ := ih mem
        exact ⟨d, List.mem_cons_of_mem _ md, pair⟩

theorem places (h : s.Matches R p) (distinct : s.ids.Nodup) (distinct' : p.ids.Nodup)
    {c d : Cell α} {name : String} (hc : s.find? name = some c) (hd : p.find? name = some d) :
    Linked R c d ∧
      List.Forall₂ (fun x y => Linked R x y ∧ (x.id = c.id ↔ y.id = d.id)) s.flatten p.flatten :=
  found_together h.flatten (fun _ _ pair => by rw [pair.1]) distinct distinct' hc hd

/-- The values that one name means are related. -/
theorem found (h : s.Matches R p) (distinct : s.ids.Nodup) (distinct' : p.ids.Nodup)
    {c d : Cell α} {name : String} (hc : s.find? name = some c) (hd : p.find? name = some d) :
    R c.id c.value d.value :=
  (h.places distinct distinct' hc hd).1.2

/-- Both stacks change the value that one name means. -/
theorem assign (h : s.Matches R p) (distinct : s.ids.Nodup) (distinct' : p.ids.Nodup)
    {c d : Cell α} {name : String} (hc : s.find? name = some c) (hd : p.find? name = some d)
    {v w : α} (new : R c.id v w) : (s.assign c.id v).Matches R (p.assign d.id w) := by
  have places := forall₂_of_flatten h (h.places distinct distinct' hc hd).2
  simp only [Matches, Cells.assign, Cells.adjust, List.forall₂_map_left_iff,
    List.forall₂_map_right_iff]
  refine places.imp fun inner inner' row => ?_
  refine row.imp fun x y pair => ⟨pair.1.1, ?_⟩
  by_cases here : x.id = c.id
  · simpa [here, pair.2.mp here] using new
  · have there : y.id ≠ d.id := fun same => here (pair.2.mpr same)
    simpa [here, there] using pair.1.2

/-- `s` has the places of `e` and gets values that are related to what those of `e` are
related to. -/
theorem mend (h : e.Matches R p) (same : s.outline = e.outline) {f : Nat → α → α}
    (keeps : ∀ c ∈ e.flatten, ∀ now w, R c.id c.value w → Q c.id (f c.id now) w) :
    (s.adjust f).Matches Q p := by
  induction h generalizing s with
  | nil =>
    cases s with
    | nil => exact .nil
    | cons => cases same
  | @cons inner inner' outer outer' first _ ih =>
    cases s with
    | nil => cases same
    | cons row rest =>
      simp only [outline, List.map_cons, List.cons.injEq] at same
      refine .cons ?_ (ih same.2 fun c mem => keeps c (List.mem_append_right _ mem))
      have keeps : ∀ c ∈ inner, ∀ now w, R c.id c.value w → Q c.id (f c.id now) w :=
        fun c mem => keeps c (List.mem_append_left _ mem)
      exact mendScope first same.1 keeps
where
  mendScope {row inner inner' : List (Cell α)} {f : Nat → α → α}
      (h : List.Forall₂ (Linked R) inner inner')
      (same : row.map (fun c => (c.id, c.name)) = inner.map fun c => (c.id, c.name))
      (keeps : ∀ c ∈ inner, ∀ now w, R c.id c.value w → Q c.id (f c.id now) w) :
      List.Forall₂ (Linked Q) (row.map fun c => { c with value := f c.id c.value }) inner' := by
    induction h generalizing row with
    | nil =>
      cases row with
      | nil => exact .nil
      | cons => cases same
    | @cons c d _ _ pair _ ih =>
      cases row with
      | nil => cases same
      | cons x row =>
        simp only [List.map_cons, List.cons.injEq, Prod.mk.injEq] at same
        refine .cons ⟨same.1.2.trans pair.1, ?_⟩
          (ih same.2 fun c mem => keeps c (List.mem_cons_of_mem _ mem))
        show Q x.id (f x.id x.value) d.value
        rw [same.1.1]
        exact keeps c List.mem_cons_self _ _ pair.2

end Matches

/-! ## Covering -/

/-- The cells have one name, and the value of the first is related to that of the
second. -/
def Paired (R : α → α → Prop) (c d : Cell α) : Prop := c.name = d.name ∧ R c.value d.value

/-- The stacks have the same names in the same places, and their values are related. -/
def Covers (R : α → α → Prop) (s p : Cells α) : Prop :=
  List.Forall₂ (List.Forall₂ (Paired R)) s p

variable {R : α → α → Prop} {s p e : Cells α}

/-- Covering is matching by a relation that does not look at numbers. -/
theorem covers_iff : s.Covers R p ↔ s.Matches (fun _ => R) p := Iff.rfl

namespace Covers

theorem push (h : s.Covers R p) : Covers R ([] :: s) ([] :: p) :=
  Matches.push (covers_iff.mp h)

theorem tail (h : s.Covers R p) : Covers R s.tail p.tail :=
  Matches.tail (covers_iff.mp h)

theorem same (s : Cells α) : s.Covers Eq s :=
  List.forall₂_same.mpr fun _ _ => List.forall₂_same.mpr fun _ _ => ⟨rfl, rfl⟩

/-- Equal names and values in the same places. -/
theorem contents_eq (h : s.Covers Eq p) : s.contents = p.contents := by
  have places : List.Forall₂ Eq s.contents p.contents := by
    simp only [contents, List.forall₂_map_left_iff, List.forall₂_map_right_iff]
    refine h.imp fun inner inner' row => ?_
    have names : List.Forall₂ Eq (inner.map fun c => (c.name, c.value))
        (inner'.map fun c => (c.name, c.value)) := by
      simp only [List.forall₂_map_left_iff, List.forall₂_map_right_iff]
      exact row.imp fun c d pair => Prod.ext pair.1 pair.2
    exact List.forall₂_eq_eq_eq ▸ names
  exact List.forall₂_eq_eq_eq ▸ places

/-- Every cell of the innermost scope has its pair. -/
theorem exists_mem_head (h : s.Covers R p) {d : Cell α} (mem : d ∈ p.headD []) :
    ∃ c ∈ s.headD [], Paired R c d :=
  Matches.exists_mem_head (covers_iff.mp h) mem

theorem add (h : s.Covers R p) {c d : Cell α} (new : Paired R c d) :
    (s.add c).Covers R (p.add d) :=
  Matches.add (covers_iff.mp h) new

/-- The values that one name means are related. -/
theorem found (h : s.Covers R p) (distinct : s.ids.Nodup) (distinct' : p.ids.Nodup)
    {c d : Cell α} {name : String} (hc : s.find? name = some c) (hd : p.find? name = some d) :
    R c.value d.value :=
  Matches.found (covers_iff.mp h) distinct distinct' hc hd

/-- Both stacks change the value that one name means. -/
theorem assign (h : s.Covers R p) (distinct : s.ids.Nodup) (distinct' : p.ids.Nodup)
    {c d : Cell α} {name : String} (hc : s.find? name = some c) (hd : p.find? name = some d)
    {v w : α} (new : R v w) : (s.assign c.id v).Covers R (p.assign d.id w) :=
  Matches.assign (covers_iff.mp h) distinct distinct' hc hd new

/-- `s` has the places of `e` and gets values that are at least as cautious as those
of `e`. -/
theorem mend (h : e.Covers R p) (same : s.outline = e.outline) {f : Nat → α → α}
    (cautious : ∀ c ∈ e.flatten, ∀ now w, R c.value w → R (f c.id now) w) :
    (s.adjust f).Covers R p :=
  Matches.mend (Q := fun _ => R) (covers_iff.mp h) same cautious

end Covers

end Cells

end ResourceSafety
