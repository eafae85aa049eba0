import ResourceSafety.Logic.Circuit

/-!
# Gates mean conditions

A circuit *admits* the valuations that make its clauses true.  A circuit *extends* another one by a
condition when it admits no more than the valuations of the other that satisfy the condition, and
each of these up to the values of variables that are new (`Circuit.Extends`).  Gates extend a
circuit by no condition at all.

A literal *means* a condition when it is worth the condition in every admitted valuation
(`Circuit.Means`).  It still does in every circuit that extends this one, so the conditions of gates
are put together like the gates.

A gate is a variable that is not in use, with clauses that give it the worth of a condition on
variables in use (`Circuit.builds_gate`).  The simplifications ahead of the gates save clauses and
do not change what the result means.
-/

namespace ResourceSafety.Logic

/-- The valuations give the same values to the variables up to `n`. -/
def AgreeUpTo (n : Nat) (v w : Valuation) : Prop := ∀ x ≤ n, v x = w x

namespace AgreeUpTo

variable {m n : Nat} {u v w : Valuation}

theorem refl (n : Nat) (v : Valuation) : AgreeUpTo n v v := fun _ _ => rfl

theorem symm (h : AgreeUpTo n v w) : AgreeUpTo n w v := fun x hx => (h x hx).symm

theorem trans (h : AgreeUpTo m u v) (h' : AgreeUpTo n v w) (le : m ≤ n) : AgreeUpTo m u w :=
  fun x hx => (h x hx).trans (h' x (Nat.le_trans hx le))

theorem holds_eq (h : AgreeUpTo n v w) {l : Literal} (hl : l.var ≤ n) : l.holds v = l.holds w := by
  rw [Literal.holds, Literal.holds, h l.var hl]

theorem clause_eq (h : AgreeUpTo n v w) {c : Clause} (hc : ∀ l ∈ c, l.var ≤ n) :
    c.holds v = c.holds w := by
  rw [Bool.eq_iff_iff, Clause.holds_iff, Clause.holds_iff]
  exact exists_congr fun l => and_congr_right fun hl => by rw [h.holds_eq (hc l hl)]

end AgreeUpTo

/-- The condition depends on the variables up to `n` only. -/
def DependsUpTo {α : Type} (n : Nat) (f : Valuation → α) : Prop :=
  ∀ v w, AgreeUpTo n v w → f v = f w

namespace Circuit

variable {c d e : Circuit} {P R : Valuation → Prop}

/-- The clauses hold. -/
def Admits (c : Circuit) (v : Valuation) : Prop := ∀ d ∈ c.clauses, d.holds v = true

/-- The variables of clauses are in use, and a clause says what the true literal is. -/
structure Sound (c : Circuit) : Prop where
  bounded : ∀ d ∈ c.clauses, ∀ l ∈ d, l.var ≤ c.maxVar
  used : c.maxVar ≤ c.nextVar
  truth : [c.truth] ∈ c.clauses

theorem sound_start : start.Sound where
  bounded d hd l hl := by
    cases List.mem_singleton.mp hd
    cases List.mem_singleton.mp hl
    exact Nat.le_refl 1
  used := Nat.le_refl 1
  truth := List.mem_cons_self

namespace Sound

variable {v w : Valuation}

theorem var_truth (sound : c.Sound) : c.truth.var ≤ c.nextVar :=
  Nat.le_trans (sound.bounded _ sound.truth _ List.mem_cons_self) sound.used

theorem holds_truth (sound : c.Sound) (hv : c.Admits v) : c.truth.holds v = true := by
  obtain ⟨l, hl, holds⟩ := Clause.holds_iff.mp (hv _ sound.truth)
  rwa [List.mem_singleton.mp hl] at holds

theorem holds_falsity (sound : c.Sound) (hv : c.Admits v) : c.falsity.holds v = false := by
  rw [falsity, Literal.holds_negation, sound.holds_truth hv, Bool.not_true]

/-- Only the variables in clauses count. -/
theorem admits_of_agree (sound : c.Sound) {n : Nat} (le : c.maxVar ≤ n) (h : AgreeUpTo n v w)
    (hv : c.Admits v) : c.Admits w := by
  intro d hd
  rw [← h.clause_eq fun l hl => Nat.le_trans (sound.bounded d hd l hl) le]
  exact hv d hd

end Sound

/-! ## Extensions -/

/-- The circuit `d` has further variables, and admits what `c` admits under a condition. -/
structure Extends (c : Circuit) (P : Valuation → Prop) (d : Circuit) : Prop where
  truth : d.truth = c.truth
  nextVar : c.nextVar ≤ d.nextVar
  maxVar : c.maxVar ≤ d.maxVar
  requires : ∀ v, d.Admits v → c.Admits v ∧ P v
  carries : ∀ v, c.Admits v → P v → ∃ w, AgreeUpTo c.nextVar v w ∧ d.Admits w

/-- No condition. -/
abbrev Always : Valuation → Prop := fun _ => True

namespace Extends

theorem refl (c : Circuit) : c.Extends Always c where
  truth := rfl
  nextVar := Nat.le_refl _
  maxVar := Nat.le_refl _
  requires _ hv := ⟨hv, trivial⟩
  carries v hv _ := ⟨v, .refl _ v, hv⟩

theorem falsity (h : c.Extends P d) : d.falsity = c.falsity := congrArg Literal.negation h.truth

theorem admits (h : c.Extends P d) {v : Valuation} (hv : d.Admits v) : c.Admits v :=
  (h.requires v hv).1

theorem congr (h : c.Extends P d) (iff : ∀ v, c.Admits v → (P v ↔ R v)) : c.Extends R d where
  truth := h.truth
  nextVar := h.nextVar
  maxVar := h.maxVar
  requires v hv := (h.requires v hv).imp_right (iff v (h.admits hv)).mp
  carries v hv holds := h.carries v hv ((iff v hv).mpr holds)

/-- A condition of a later part must be one on variables in use before. -/
theorem trans (first : c.Extends P d) (second : d.Extends R e) (depends : DependsUpTo c.nextVar R) :
    c.Extends (fun v => P v ∧ R v) e where
  truth := second.truth.trans first.truth
  nextVar := Nat.le_trans first.nextVar second.nextVar
  maxVar := Nat.le_trans first.maxVar second.maxVar
  requires v hv :=
    have ⟨inD, holds⟩ := second.requires v hv
    have ⟨inC, before⟩ := first.requires v inD
    ⟨inC, before, holds⟩
  carries v hv holds := by
    obtain ⟨w, agree, inD⟩ := first.carries v hv holds.1
    obtain ⟨u, agree', inE⟩ := second.carries w inD (depends v w agree ▸ holds.2)
    exact ⟨u, agree.trans agree' first.nextVar, inE⟩

end Extends

/-! ## What literals mean -/

/-- The literal is worth `f` wherever the circuit admits it. -/
structure Means (c : Circuit) (l : Literal) (f : Valuation → Bool) : Prop where
  var : l.var ≤ c.nextVar
  holds : ∀ v, c.Admits v → l.holds v = f v

namespace Means

variable {l : Literal} {f g : Valuation → Bool}

theorem self (h : l.var ≤ c.nextVar) : c.Means l (l.holds ·) := ⟨h, fun _ _ => rfl⟩

theorem truth (sound : c.Sound) : c.Means c.truth (fun _ => true) :=
  ⟨sound.var_truth, fun _ hv => sound.holds_truth hv⟩

theorem falsity (sound : c.Sound) : c.Means c.falsity (fun _ => false) :=
  ⟨sound.var_truth, fun _ hv => sound.holds_falsity hv⟩

theorem negation (h : c.Means l f) : c.Means l.negation (fun v => !f v) :=
  ⟨h.var, fun v hv => by rw [Literal.holds_negation, h.holds v hv]⟩

theorem congr (h : c.Means l f) (eq : ∀ v, c.Admits v → f v = g v) : c.Means l g :=
  ⟨h.var, fun v hv => (h.holds v hv).trans (eq v hv)⟩

theorem extend (h : c.Means l f) (more : c.Extends P d) : d.Means l f :=
  ⟨Nat.le_trans h.var more.nextVar, fun v hv => h.holds v (more.admits hv)⟩

end Means

/-! ## Steps that build -/

/-- Building `m` extends the circuit by a condition, with a result as a postcondition says. -/
def Builds {α : Type} (c : Circuit) (P : Valuation → Prop) (m : Build α)
    (Q : α → Circuit → Prop) : Prop :=
  (m.run c).2.Sound ∧ c.Extends P (m.run c).2 ∧ Q (m.run c).1 (m.run c).2

namespace Builds

variable {α β : Type} {m : Build α} {k : α → Build β} {Q : α → Circuit → Prop}
  {S : β → Circuit → Prop}

theorem pure (sound : c.Sound) {x : α} (h : Q x c) : c.Builds Always (pure x) Q :=
  ⟨sound, .refl c, h⟩

theorem get_bind {k : Circuit → Build α} (h : c.Builds P (k c) Q) : c.Builds P (get >>= k) Q := h

theorem congr (h : c.Builds P m Q) (iff : ∀ v, c.Admits v → (P v ↔ R v)) : c.Builds R m Q :=
  ⟨h.1, h.2.1.congr iff, h.2.2⟩

theorem imp {T : α → Circuit → Prop} (h : c.Builds P m Q)
    (weaker : ∀ x d, d.Sound → c.Extends P d → Q x d → T x d) : c.Builds P m T :=
  ⟨h.1, h.2.1, weaker _ _ h.1 h.2.1 h.2.2⟩

theorem seq (first : c.Builds P m Q) (depends : DependsUpTo c.nextVar R)
    (next : ∀ x d, d.Sound → c.Extends P d → Q x d → d.Builds R (k x) S) :
    c.Builds (fun v => P v ∧ R v) (m >>= k) S := by
  obtain ⟨sound, more, holds⟩ := first
  obtain ⟨sound', more', holds'⟩ := next _ _ sound more holds
  exact ⟨sound', more.trans more' depends, holds'⟩

/-- Gates one after the other. -/
theorem bind (first : c.Builds Always m Q)
    (next : ∀ x d, d.Sound → c.Extends Always d → Q x d → d.Builds Always (k x) S) :
    c.Builds Always (m >>= k) S :=
  (first.seq (fun _ _ _ => rfl) next).congr fun _ _ => and_iff_left trivial

/-- Gates, and then clauses on variables in use before. -/
theorem andThen (first : c.Builds Always m Q) (depends : DependsUpTo c.nextVar R)
    (next : ∀ x d, d.Sound → c.Extends Always d → Q x d → d.Builds R (k x) S) :
    c.Builds R (m >>= k) S :=
  (first.seq depends next).congr fun _ _ => and_iff_right trivial

end Builds

theorem le_foldl_maxVar (ms : Clause) (n : Nat) :
    n ≤ ms.foldl (fun x m => max x m.var) n ∧
      ∀ l ∈ ms, l.var ≤ ms.foldl (fun x m => max x m.var) n := by
  induction ms generalizing n with
  | nil => exact ⟨Nat.le_refl n, fun _ h => nomatch h⟩
  | cons m ms ih =>
      obtain ⟨start, rest⟩ := ih (max n m.var)
      refine ⟨Nat.le_trans (Nat.le_max_left n m.var) start, List.forall_mem_cons.mpr ⟨?_, rest⟩⟩
      exact Nat.le_trans (Nat.le_max_right n m.var) start

theorem foldl_maxVar_le {ms : Clause} {n k : Nat} (hn : n ≤ k) (hms : ∀ l ∈ ms, l.var ≤ k) :
    ms.foldl (fun x m => max x m.var) n ≤ k := by
  induction ms generalizing n with
  | nil => exact hn
  | cons m ms ih =>
      obtain ⟨here, others⟩ := List.forall_mem_cons.mp hms
      exact ih (Nat.max_le.mpr ⟨hn, here⟩) others

/-- A clause is a condition. -/
theorem builds_clause (sound : c.Sound) {ms : Clause} (vars : ∀ l ∈ ms, l.var ≤ c.nextVar) :
    c.Builds (fun v => ms.holds v = true) (clause ms) (fun _ d => d.nextVar = c.nextVar) := by
  obtain ⟨start, rest⟩ := le_foldl_maxVar ms c.maxVar
  refine ⟨⟨List.forall_mem_cons.mpr ⟨rest, fun d hd l hl => ?_⟩,
    foldl_maxVar_le sound.used vars, List.mem_cons_of_mem ms sound.truth⟩, ⟨rfl, Nat.le_refl _,
    start, fun v hv => (List.forall_mem_cons.mp hv).symm, fun v hv holds => ?_⟩, rfl⟩
  · exact Nat.le_trans (sound.bounded d hd l hl) start
  · exact ⟨v, .refl _ v, List.forall_mem_cons.mpr ⟨holds, hv⟩⟩

/-! ## Gates -/

theorem Sound.addVars (sound : c.Sound) (n : Nat) : Sound { c with nextVar := c.nextVar + n } :=
  ⟨sound.bounded, Nat.le_trans sound.used (Nat.le_add_right _ n), sound.truth⟩

theorem agreeUpTo_withValue {n x : Nat} (h : n < x) (v : Valuation) (b : Bool) :
    AgreeUpTo n v (v.withValue x b) :=
  fun _ hy => (if_neg (Nat.ne_of_lt (Nat.lt_of_le_of_lt hy h))).symm

theorem withValue_self (v : Valuation) (x : Nat) (b : Bool) : v.withValue x b x = b := if_pos rfl

/-- A gate is a new variable with clauses that say what it is worth. -/
theorem builds_gate (sound : c.Sound) {f : Valuation → Bool} (depends : DependsUpTo c.nextVar f)
    {k : Literal → Build Literal}
    (clauses : ∀ (g : Literal) (d : Circuit), d.Sound → g.var ≤ d.nextVar → c.nextVar ≤ d.nextVar →
      d.Builds (fun v => g.holds v = f v) (k g) (fun l _ => l = g)) :
    c.Builds Always (fresh >>= k) (fun l d => d.Means l f) := by
  have bound := Nat.le_succ c.nextVar
  obtain ⟨sound', more, result⟩ := clauses (.positive (c.nextVar + 1))
    { c with nextVar := c.nextVar + 1 } (sound.addVars 1) (Nat.le_refl _) bound
  have means : Means (((fresh >>= k).run c).2) ((fresh >>= k).run c).1 f := by
    refine ⟨?_, fun v hv => ?_⟩
    · exact result ▸ more.nextVar
    · exact result ▸ (more.requires v hv).2
  refine ⟨sound', ⟨more.truth, Nat.le_trans bound more.nextVar, more.maxVar, fun v hv => ?_,
    fun v hv _ => ?_⟩, means⟩
  · exact ⟨more.admits hv, trivial⟩
  · -- the new variable gets the worth of the condition
    have agree := agreeUpTo_withValue (Nat.lt_succ_self c.nextVar) v (f v)
    have worth : (Literal.positive (c.nextVar + 1)).holds (v.withValue (c.nextVar + 1) (f v)) =
        f (v.withValue (c.nextVar + 1) (f v)) := by
      rw [Literal.holds_positive, withValue_self]
      exact depends v _ agree
    obtain ⟨w, agree', hw⟩ := more.carries _ (sound.admits_of_agree sound.used agree hv) worth
    exact ⟨w, agree.trans agree' bound, hw⟩

/-- Clauses one after the other are the condition that all of them hold. -/
theorem builds_clauses (sound : c.Sound) {g : Literal} (cs : List Clause)
    (vars : ∀ ms ∈ cs, ∀ l ∈ ms, l.var ≤ c.nextVar) :
    c.Builds (fun v => ∀ ms ∈ cs, ms.holds v = true)
      (cs.foldr (fun ms rest => clause ms >>= fun _ => rest) (Pure.pure g)) (fun l _ => l = g) := by
  induction cs generalizing c with
  | nil =>
      refine (Builds.pure sound (x := g) (Q := fun l _ => l = g) rfl).congr fun v _ => ?_
      exact (iff_true_intro (List.forall_mem_nil _)).symm
  | cons ms cs ih =>
      obtain ⟨here, others⟩ := List.forall_mem_cons.mp vars
      refine ((builds_clause sound here).seq (R := fun v => ∀ ms ∈ cs, ms.holds v = true) ?_
        fun _ d sound' _ same => ih sound' fun ns hns l hl => same ▸ others ns hns l hl).congr ?_
      · intro v w agree
        refine propext (forall₂_congr fun ns hns => ?_)
        rw [agree.clause_eq (others ns hns)]
      · exact fun v _ => (List.forall_mem_cons (p := fun ms => Clause.holds v ms = true)).symm

theorem dependsUpTo_and {n : Nat} {x y : Literal} (hx : x.var ≤ n) (hy : y.var ≤ n) :
    DependsUpTo n fun v => x.holds v && y.holds v := by
  intro v w agree
  dsimp only
  rw [agree.holds_eq hx, agree.holds_eq hy]

theorem dependsUpTo_beq {n : Nat} {x y : Literal} (hx : x.var ≤ n) (hy : y.var ≤ n) :
    DependsUpTo n fun v => x.holds v == y.holds v := by
  intro v w agree
  dsimp only
  rw [agree.holds_eq hx, agree.holds_eq hy]

theorem builds_and2 (sound : c.Sound) {x y : Literal} (hx : x.var ≤ c.nextVar)
    (hy : y.var ≤ c.nextVar) :
    c.Builds Always (and2 x y) (fun l d => d.Means l fun v => x.holds v && y.holds v) := by
  unfold and2
  refine .get_bind ?_
  split
  next isFalse =>
    refine .pure sound ((Means.falsity sound).congr fun v hv => ?_)
    obtain rfl | rfl | rfl := isFalse
    · rw [sound.holds_falsity hv, Bool.false_and]
    · rw [sound.holds_falsity hv, Bool.and_false]
    · rw [Literal.holds_negation, Bool.not_and_self]
  split
  next isRight =>
    refine .pure sound ((Means.self hy).congr fun v hv => ?_)
    obtain rfl | rfl := isRight
    · rw [sound.holds_truth hv, Bool.true_and]
    · rw [Bool.and_self]
  split
  next isLeft =>
    refine .pure sound ((Means.self hx).congr fun v hv => ?_)
    rw [isLeft, sound.holds_truth hv, Bool.and_true]
  next =>
    refine builds_gate sound (dependsUpTo_and hx hy) fun g d sound' hg le => ?_
    have vars : ∀ ms ∈ [[g.negation, x], [g.negation, y], [g, x.negation, y.negation]],
        ∀ l ∈ ms, l.var ≤ d.nextVar := by
      have hx' := Nat.le_trans hx le
      have hy' := Nat.le_trans hy le
      simp [hg, hx', hy']
    refine (builds_clauses sound' (g := g) _ vars).congr fun v _ => ?_
    simp only [List.forall_mem_cons, Clause.holds, List.any_cons, List.any_nil,
      Literal.holds_negation]
    cases g.holds v <;> cases x.holds v <;> cases y.holds v <;> simp

theorem builds_or2 (sound : c.Sound) {x y : Literal} (hx : x.var ≤ c.nextVar)
    (hy : y.var ≤ c.nextVar) :
    c.Builds Always (or2 x y) (fun l d => d.Means l fun v => x.holds v || y.holds v) := by
  refine (builds_and2 sound (x := x.negation) (y := y.negation) hx hy).bind
    fun l d sound' _ means => .pure sound' (means.negation.congr fun v _ => ?_)
  rw [Literal.holds_negation, Literal.holds_negation, Bool.not_and, Bool.not_not, Bool.not_not]

theorem builds_iff (sound : c.Sound) {x y : Literal} (hx : x.var ≤ c.nextVar)
    (hy : y.var ≤ c.nextVar) :
    c.Builds Always (iff x y) (fun l d => d.Means l fun v => x.holds v == y.holds v) := by
  unfold iff
  refine .get_bind ?_
  split
  next same =>
    refine .pure sound ((Means.truth sound).congr fun v hv => ?_)
    rw [same, BEq.rfl]
  split
  next opposite =>
    refine .pure sound ((Means.falsity sound).congr fun v hv => ?_)
    rw [opposite, Literal.holds_negation, Bool.not_beq_self]
  split
  next isTrue =>
    refine .pure sound ((Means.self hy).congr fun v hv => ?_)
    rw [isTrue, sound.holds_truth hv, Bool.true_beq]
  split
  next isFalse =>
    refine .pure sound ((Means.self hy).negation.congr fun v hv => ?_)
    rw [isFalse, sound.holds_falsity hv, Bool.false_beq]
  split
  next isTrue =>
    refine .pure sound ((Means.self hx).congr fun v hv => ?_)
    rw [isTrue, sound.holds_truth hv, beq_true]
  split
  next isFalse =>
    refine .pure sound ((Means.self hx).negation.congr fun v hv => ?_)
    rw [isFalse, sound.holds_falsity hv, beq_false]
  next =>
    refine builds_gate sound (dependsUpTo_beq hx hy) fun g d sound' hg le => ?_
    have vars : ∀ ms ∈ [[g.negation, x.negation, y], [g.negation, x, y.negation], [g, x, y],
        [g, x.negation, y.negation]], ∀ l ∈ ms, l.var ≤ d.nextVar := by
      have hx' := Nat.le_trans hx le
      have hy' := Nat.le_trans hy le
      simp [hg, hx', hy']
    refine (builds_clauses sound' (g := g) _ vars).congr fun v _ => ?_
    simp only [List.forall_mem_cons, Clause.holds, List.any_cons, List.any_nil,
      Literal.holds_negation]
    cases g.holds v <;> cases x.holds v <;> cases y.holds v <;> simp

/-! ## Lists of gates -/

/-- Gates one after the other, each on the result of the one before. -/
theorem builds_foldlM {β : Type} {k : Literal → β → Build Literal}
    {f : Bool → β → Valuation → Bool} {W : β → Nat → Prop}
    (within : ∀ {b m n}, m ≤ n → W b m → W b n)
    (each : ∀ (c : Circuit) (l : Literal) (b : β), c.Sound → l.var ≤ c.nextVar →
      W b c.nextVar → c.Builds Always (k l b) (fun m d => d.Means m fun v => f (l.holds v) b v))
    (bs : List β) (sound : c.Sound) {l : Literal} (hl : l.var ≤ c.nextVar)
    (hbs : ∀ b ∈ bs, W b c.nextVar) :
    c.Builds Always (bs.foldlM k l)
      (fun m d => d.Means m fun v => bs.foldl (fun x b => f x b v) (l.holds v)) := by
  induction bs generalizing c l with
  | nil => exact .pure sound (Means.self hl)
  | cons b bs ih =>
      obtain ⟨here, others⟩ := List.forall_mem_cons.mp hbs
      rw [List.foldlM_cons]
      refine (each c l b sound hl here).bind fun m d sound' more means => ?_
      refine (ih sound' means.var fun b hb => within more.nextVar (others b hb)).imp
        fun m' e _ more' means' => means'.congr fun v hv => ?_
      rw [List.foldl_cons, means.holds v (more'.admits hv)]

theorem foldl_and {β : Type} (f : β → Bool) (bs : List β) (x : Bool) :
    bs.foldl (fun x b => x && f b) x = (x && bs.all f) := by
  induction bs generalizing x with
  | nil => exact (Bool.and_true x).symm
  | cons b bs ih => rw [List.foldl_cons, ih, List.all_cons, Bool.and_assoc]

theorem foldl_or {β : Type} (f : β → Bool) (bs : List β) (x : Bool) :
    bs.foldl (fun x b => x || f b) x = (x || bs.any f) := by
  induction bs generalizing x with
  | nil => exact (Bool.or_false x).symm
  | cons b bs ih => rw [List.foldl_cons, ih, List.any_cons, Bool.or_assoc]

theorem builds_andN (sound : c.Sound) {ls : List Literal} (hls : ∀ l ∈ ls, l.var ≤ c.nextVar) :
    c.Builds Always (andN ls) (fun l d => d.Means l fun v => ls.all (·.holds v)) := by
  refine .get_bind ((builds_foldlM (f := fun x l v => x && l.holds v)
    (W := fun l n => l.var ≤ n) (fun le h => Nat.le_trans h le)
    (fun c l b sound hl hb => builds_and2 sound hl hb) ls sound sound.var_truth hls).imp
    fun l d sound' more means => means.congr fun v hv => ?_)
  rw [← more.truth, sound'.holds_truth hv, foldl_and, Bool.true_and]

theorem builds_orN (sound : c.Sound) {ls : List Literal} (hls : ∀ l ∈ ls, l.var ≤ c.nextVar) :
    c.Builds Always (orN ls) (fun l d => d.Means l fun v => ls.any (·.holds v)) := by
  refine .get_bind ((builds_foldlM (f := fun x l v => x || l.holds v)
    (W := fun l n => l.var ≤ n) (fun le h => Nat.le_trans h le)
    (fun c l b sound hl hb => builds_or2 sound hl hb) ls sound (l := c.falsity)
    sound.var_truth hls).imp fun l d sound' more means => means.congr fun v hv => ?_)
  rw [← more.falsity, sound'.holds_falsity hv, foldl_or, Bool.false_or]

/-- Literals that mean conditions one by one. -/
structure MeansEach (c : Circuit) (ls : List Literal) (fs : List (Valuation → Bool)) : Prop where
  vars : ∀ l ∈ ls, l.var ≤ c.nextVar
  holds : ∀ v, c.Admits v → ls.map (·.holds v) = fs.map (· v)

theorem MeansEach.all {ls : List Literal} {fs : List (Valuation → Bool)} (h : c.MeansEach ls fs)
    {v : Valuation} (hv : c.Admits v) : ls.all (·.holds v) = fs.all (· v) := by
  have all := congrArg (List.all · id) (h.holds v hv)
  simpa only [List.all_map, Function.comp_def, id] using all

theorem MeansEach.any {ls : List Literal} {fs : List (Valuation → Bool)} (h : c.MeansEach ls fs)
    {v : Valuation} (hv : c.Admits v) : ls.any (·.holds v) = fs.any (· v) := by
  have any := congrArg (List.any · id) (h.holds v hv)
  simpa only [List.any_map, Function.comp_def, id] using any

theorem builds_mapM {β : Type} {k : β → Build Literal} {f : β → Valuation → Bool} (bs : List β)
    (sound : c.Sound) (each : ∀ b ∈ bs, ∀ d : Circuit, d.Sound → c.nextVar ≤ d.nextVar →
      d.Builds Always (k b) (fun l e => e.Means l (f b))) :
    c.Builds Always (bs.mapM k) (fun ls d => d.MeansEach ls (bs.map f)) := by
  induction bs generalizing c with
  | nil => exact .pure sound ⟨List.forall_mem_nil _, fun _ _ => rfl⟩
  | cons b bs ih =>
      obtain ⟨here, others⟩ := List.forall_mem_cons.mp each
      rw [List.mapM_cons]
      refine (here c sound (Nat.le_refl _)).bind fun l d sound' more means => ?_
      refine (ih sound' fun b hb e hs le => others b hb e hs (Nat.le_trans more.nextVar le)).bind
        fun ls e sound'' more' rest => .pure sound'' ⟨?_, fun v hv => ?_⟩
      · exact List.forall_mem_cons.mpr ⟨Nat.le_trans means.var more'.nextVar, rest.vars⟩
      · rw [List.map_cons, List.map_cons, List.map_cons, rest.holds v hv,
          means.holds v (more'.admits hv)]

end Circuit

end ResourceSafety.Logic
