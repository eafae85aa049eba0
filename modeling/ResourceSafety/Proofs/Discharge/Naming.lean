import Mathlib.Data.List.DropRight
import Mathlib.Data.List.Perm.Subperm
import ResourceSafety.Proofs.Discharge.Recording

/-!
# Names in a session

A discharger introduces names of four kinds into its session: the function that holds
dimensions, a symbol for each handle, a symbol for each literal that it decides about, and
a name for each fact.

All but the function are a *stem* with a number behind it.  The numbers of symbols come from
one counter, so no two symbols have the same number, and facts are counted by themselves
(`Discharger.Account`).  Where no stem ends in a digit, a name can be read back as its stem
and its number, and so names are distinct unless a handle has the stem of facts
(`Discharger.introduced_nodup`).

Other stems do collide.  A handle made from `a1` as the first is called `a10`, and so is one
made from `a` as the eleventh.
-/

namespace ResourceSafety

open Logic (Action BitBlaster Formula Recorded Solver Term clauseLearning)
open Logic.Action

namespace Discharger

/-! ## Stems and numbers -/

/-- The text ends in a digit. -/
def endsInDigit (text : String) : Bool := text.toList.getLast?.any Char.isDigit

/-- A stem with a number behind it. -/
def numbered (name : String × Nat) : String := name.1 ++ toString name.2

theorem toList_numbered (name : String × Nat) :
    (numbered name).toList = name.1.toList ++ Nat.toDigits 10 name.2 := by
  show (name.1 ++ name.2.repr).toList = _
  rw [String.toList_append, Nat.toList_repr]

theorem endsInDigit_numbered (name : String × Nat) : endsInDigit (numbered name) = true := by
  have digits : Nat.toDigits 10 name.2 ≠ [] := Nat.toDigits_ne_nil
  rw [endsInDigit, toList_numbered, List.getLast?_append_of_ne_nil _ digits,
    List.getLast?_eq_getLast_of_ne_nil digits]
  exact Text.isDigit_of_mem_digits (List.getLast_mem digits)

/-- What stands before the digits at the end of a numbered name is its stem. -/
theorem rdropWhile_numbered {name : String × Nat} (stem : endsInDigit name.1 = false) :
    (numbered name).toList.rdropWhile Char.isDigit = name.1.toList := by
  have digits : ∀ c ∈ (Nat.toDigits 10 name.2).reverse, c.isDigit = true :=
    fun c hc => Text.isDigit_of_mem_digits (List.mem_reverse.mp hc)
  have kept : name.1.toList.rdropWhile Char.isDigit = name.1.toList := by
    refine List.rdropWhile_eq_self_iff.mpr fun some => ?_
    rw [endsInDigit, List.getLast?_eq_getLast_of_ne_nil some] at stem
    exact Bool.not_eq_true _ ▸ stem
  rw [toList_numbered, List.rdropWhile, List.reverse_append, List.dropWhile_append_of_pos digits]
  exact kept

/-- A stem that does not end in a digit can be told from the number behind it. -/
theorem numbered_inj {a b : String × Nat} (ha : endsInDigit a.1 = false)
    (hb : endsInDigit b.1 = false) (h : numbered a = numbered b) : a = b := by
  have stems : a.1 = b.1 := by
    rw [← String.toList_inj, ← rdropWhile_numbered ha, h, rdropWhile_numbered hb]
  have digits := congrArg String.toList h
  rw [toList_numbered, toList_numbered, stems] at digits
  have numbers := congrArg (Nat.ofDigitChars 10 · 0) (List.append_cancel_left digits)
  simp only [Nat.ofDigitChars_ten_toDigits] at numbers
  exact Prod.ext stems numbers

theorem factName_injective : Function.Injective factName := by
  intro m n h
  have stem : endsInDigit "fact" = false := by decide
  exact congrArg Prod.snd (numbered_inj (a := ("fact", m)) (b := ("fact", n)) stem stem h)

/-- The text makes a handle with a stem of its own. -/
def isApart (text : String) : Bool := text != "fact" && !endsInDigit text

/-- The character that stands for one in a symbol. -/
def symbolChar (c : Char) : Char := if isSymbolChar c then c else '_'

theorem isDigit_symbolChar (c : Char) : (symbolChar c).isDigit = c.isDigit := by
  unfold symbolChar
  split
  next => rfl
  next other =>
    have underscore : '_'.isDigit = false := rfl
    rw [underscore, eq_comm, Bool.eq_false_iff]
    intro digit
    refine other ?_
    simp only [Char.isDigit, Bool.and_eq_true, decide_eq_true_eq] at digit
    simp only [isSymbolChar, Bool.or_eq_true, Bool.and_eq_true, decide_eq_true_eq]
    exact Or.inr digit

/-- A stem has the characters of the text, with a letter in front if that is needed. -/
theorem toList_symbolStem (text : String) :
    (symbolStem text).toList = text.toList.map symbolChar ∨
      (symbolStem text).toList = 'h' :: text.toList.map symbolChar := by
  unfold symbolStem
  dsimp only
  split
  next c cs eq =>
    have chars : text.toList.map symbolChar = c :: cs := eq
    rw [chars]
    split
    next => exact Or.inl (by rw [← eq]; exact String.toList_ofList)
    next => exact Or.inr (by rw [← eq]; exact String.toList_ofList)
  next none =>
    have chars : text.toList.map symbolChar = [] := none
    exact Or.inr (by rw [chars]; rfl)

theorem endsInDigit_symbolStem (text : String) :
    endsInDigit (symbolStem text) = endsInDigit text := by
  have last : ∀ cs : List Char,
      (cs.map symbolChar).getLast?.any Char.isDigit = cs.getLast?.any Char.isDigit := by
    intro cs
    rw [List.getLast?_map]
    cases cs.getLast? with
    | none => rfl
    | some c => exact isDigit_symbolChar c
  unfold endsInDigit
  rcases toList_symbolStem text with chars | chars
  · rw [chars, last]
  · rw [chars, List.getLast?_cons, ← last]
    cases (text.toList.map symbolChar).getLast? <;> rfl

/-- Only one text has the stem of facts. -/
theorem eq_fact_of_symbolStem {text : String} (h : symbolStem text = "fact") : text = "fact" := by
  rcases toList_symbolStem text with chars | chars
  · rw [h] at chars
    have same : text.toList.map symbolChar = text.toList.map id := by
      refine List.map_congr_left fun c hc => ?_
      have mem : symbolChar c ∈ "fact".toList := chars ▸ List.mem_map_of_mem hc
      by_contra other
      have underscore : symbolChar c = '_' := if_neg fun good => other (if_pos good)
      rw [underscore] at mem
      revert mem
      decide
    rw [same, List.map_id] at chars
    exact (String.toList_inj.mp chars).symm
  · rw [h] at chars
    cases chars

/-! ## Names of the session -/

section Accounts

variable {σ : Type} {d e : Discharger (Recorded σ)} {P : String → Prop}
  {symbols : List (String × Nat)}

/-- The names in the session that the next request will find. -/
def names (d : Discharger (Recorded σ)) : List String :=
  (d.session.map Recorded.introduced).getD [shapeFunction]

/-- Two states agree on all that names depend on, apart from the session. -/
structure Agrees (d e : Discharger (Recorded σ)) : Prop where
  opening : e.opening = d.opening
  nonce : e.nonce = d.nonce
  facts : e.facts = d.facts
  handles : e.handles = d.handles

/-- Where the names of a session come from: the symbols have the given stems and numbers,
and the facts are numbered from zero on. -/
structure Account (P : String → Prop) (d : Discharger (Recorded σ))
    (symbols : List (String × Nat)) : Prop where
  opening : ∀ cancelled r, d.opening cancelled = .ok r → r.introduced = []
  names : d.names.Perm
    (shapeFunction :: (symbols.map numbered ++ (List.range d.facts.length).map factName))
  facts : d.facts.map Prod.fst = (List.range d.facts.length).map factName
  handles : d.handles.Sublist (symbols.map numbered)
  ordered : symbols.Pairwise (·.2 < ·.2)
  below : ∀ s ∈ symbols, s.2 < d.nonce
  stems : ∀ s ∈ symbols, P s.1

theorem Account.agrees (account : Account P d symbols) (agrees : Agrees d e)
    (names : e.names = d.names) : Account P e symbols where
  opening := agrees.opening ▸ account.opening
  names := by rw [names, agrees.facts]; exact account.names
  facts := agrees.facts ▸ account.facts
  handles := agrees.handles ▸ account.handles
  ordered := account.ordered
  below := agrees.nonce ▸ account.below
  stems := account.stems

/-- The next number was passed over. -/
theorem Account.skip (account : Account P d symbols) :
    Account P { d with nonce := d.nonce + 1 } symbols :=
  { account with below := fun s hs => Nat.lt_succ_of_lt (account.below s hs) }

/-- The action keeps an account. -/
def Accounts {α : Type} (P : String → Prop) (a : Action (Discharger (Recorded σ)) α) : Prop :=
  ∀ d, (∃ symbols, Account P d symbols) → ∃ symbols, Account P (a.perform d).2 symbols

theorem Accounts.bind {α β : Type} {a : Action (Discharger (Recorded σ)) α}
    {k : α → Action (Discharger (Recorded σ)) β} (first : Accounts P a)
    (next : ∀ x, Accounts P (k x)) : Accounts P (a >>= k) := by
  intro d account
  have between := first d account
  rw [perform_bind]
  revert between
  rcases a.perform d with ⟨fault | x, e⟩ <;> intro between
  · exact between
  · exact next x e between

theorem accounts_requireStated (o : Obligation) :
    Accounts P (requireStated o : Action (Discharger (Recorded σ)) Unit) := by
  intro d account
  rw [perform_requireStated]
  split <;> exact account

theorem accounts_enqueue (o : Obligation) :
    Accounts P (enqueue o : Action (Discharger (Recorded σ)) Unit) := by
  refine .bind (accounts_requireStated o) fun _ => ?_
  rintro d ⟨symbols, account⟩
  exact ⟨symbols, account.agrees ⟨rfl, rfl, rfl, rfl⟩ rfl⟩

variable [Solver σ]

/-- Opening a session changes no names. -/
theorem exists_ensure (opening : ∀ cancelled r, d.opening cancelled = .ok r → r.introduced = [])
    (cancelled : Bool) :
    ∃ x e, (ensure cancelled).perform d = (x, e) ∧ Agrees d e ∧ e.names = d.names ∧
      ∀ r, x = .ok r → e.session = some r := by
  unfold ensure
  rw [perform_get_bind]
  rcases hs : d.session with _ | r
  · have unopened : d.names = [shapeFunction] := by rw [names, hs]; rfl
    dsimp only
    rw [perform_bind, perform_ofExcept]
    rcases opened : d.opening cancelled with fault | r
    · exact ⟨_, d, rfl, ⟨rfl, rfl, rfl, rfl⟩, rfl, fun _ hu => nomatch hu⟩
    · have declare : (Solver.declareFunction shapeFunction 2 : Action (Recorded σ) Unit).perform r =
          _ := Recorded.perform_introduce shapeFunction (Solver.declareFunction shapeFunction 2) r
      dsimp only
      rw [declare, opening cancelled r opened]
      rcases (Solver.declareFunction shapeFunction 2).perform r.session with ⟨fault | _, s⟩
      · refine ⟨_, _, rfl, ⟨rfl, rfl, rfl, rfl⟩, ?_, fun _ hu => nomatch hu⟩
        exact unopened.symm
      · exact ⟨_, _, rfl, ⟨rfl, rfl, rfl, rfl⟩, unopened.symm, fun u hu => by cases hu; rfl⟩
  · exact ⟨.ok r, d, rfl, ⟨rfl, rfl, rfl, rfl⟩, rfl, fun u hu => by cases hu; exact hs⟩

/-- A request that introduces a name either does so, or is refused and leaves the names as they
are. -/
theorem exists_introduce
    (opening : ∀ cancelled r, d.opening cancelled = .ok r → r.introduced = [])
    (cancelled : Bool) {name : String} {a : Action σ Unit} {b : Action (Recorded σ) Unit}
    (introduces : b = Recorded.introduce name a) :
    ∃ x e, (request cancelled b).perform d = (x, e) ∧ Agrees d e ∧
      (x = .ok () ∧ e.names = d.names ++ [name] ∨
        (∃ fault, x = .error fault) ∧ e.names = d.names) := by
  obtain ⟨x, e, ensured, agrees, names, current⟩ := exists_ensure opening cancelled
  subst introduces
  unfold request
  rcases x with fault | r
  · rw [perform_bind_error ensured]
    exact ⟨_, e, rfl, agrees, Or.inr ⟨⟨fault, rfl⟩, names⟩⟩
  · rw [perform_bind_ok ensured, Recorded.perform_introduce]
    have before : r.introduced = d.names := by
      rw [← names, Discharger.names, current r rfl]
      rfl
    rcases a.perform r.session with ⟨fault | _, s⟩
    · exact ⟨_, _, rfl, ⟨agrees.opening, agrees.nonce, agrees.facts, agrees.handles⟩,
        Or.inr ⟨⟨fault, rfl⟩, before⟩⟩
    · exact ⟨_, _, rfl, ⟨agrees.opening, agrees.nonce, agrees.facts, agrees.handles⟩,
        Or.inl ⟨rfl, congrArg (· ++ [name]) before⟩⟩

/-- A further symbol has the next number. -/
theorem Account.declare (account : Account P d symbols) (cancelled : Bool) (text : String)
    (stem : P (symbolStem text)) :
    ∃ x e, (request cancelled
        (Solver.declareConstant (symbolStem text ++ toString d.nonce))).perform
        { d with nonce := d.nonce + 1 } = (x, e) ∧ e.handles = d.handles ∧
      (x = .ok () ∧ Account P e (symbols ++ [(symbolStem text, d.nonce)]) ∨
        (∃ fault, x = .error fault) ∧ Account P e symbols) := by
  obtain ⟨x, e, requested, agrees, ⟨ok, names⟩ | ⟨failed, names⟩⟩ :=
    exists_introduce (d := { d with nonce := d.nonce + 1 }) account.opening cancelled
      (b := Solver.declareConstant (numbered (symbolStem text, d.nonce))) rfl
  · refine ⟨x, e, requested, agrees.handles, Or.inl ⟨ok, ?_⟩⟩
    have nonce : e.nonce = d.nonce + 1 := agrees.nonce
    refine ⟨agrees.opening ▸ account.opening, ?_, agrees.facts ▸ account.facts, ?_, ?_, ?_, ?_⟩
    · rw [names, agrees.facts, List.map_append, List.append_assoc]
      refine (account.names.append_right _).trans (.cons _ ?_)
      show ((_ ++ _) ++ [_]).Perm _
      rw [List.append_assoc]
      exact List.perm_append_comm.append_left _
    · rw [agrees.handles, List.map_append]
      exact account.handles.trans (List.sublist_append_left _ _)
    · refine List.pairwise_append.mpr ⟨account.ordered, List.pairwise_singleton _ _, ?_⟩
      exact fun s hs t ht => List.mem_singleton.mp ht ▸ account.below s hs
    · rw [nonce]
      refine List.forall_mem_append.mpr ⟨fun s hs => Nat.lt_succ_of_lt (account.below s hs), ?_⟩
      exact List.forall_mem_singleton.mpr (Nat.lt_succ_self _)
    · exact List.forall_mem_append.mpr ⟨account.stems, List.forall_mem_singleton.mpr stem⟩
  · exact ⟨x, e, requested, agrees.handles, Or.inr ⟨failed, account.skip.agrees agrees names⟩⟩

/-- A further fact has the next number of facts. -/
theorem Account.assert (account : Account P d symbols) (cancelled : Bool) (f : Formula Term) :
    ∃ x e, (request cancelled (Solver.assert (factName d.facts.length) f)).perform d = (x, e) ∧
      (x = .ok () ∧ Account P { e with facts := e.facts ++ [(factName d.facts.length, f.render)] }
          symbols ∨
        (∃ fault, x = .error fault) ∧ Account P e symbols) := by
  obtain ⟨x, e, requested, agrees, ⟨ok, names⟩ | ⟨failed, names⟩⟩ :=
    exists_introduce account.opening cancelled (b := Solver.assert (factName d.facts.length) f) rfl
  · have length :
        (e.facts ++ [(factName d.facts.length, f.render)]).length = d.facts.length + 1 := by
      rw [agrees.facts, List.length_append]
      rfl
    refine ⟨x, e, requested, Or.inl ⟨ok, agrees.opening ▸ account.opening, ?_, ?_,
      agrees.handles ▸ account.handles, account.ordered, agrees.nonce ▸ account.below,
      account.stems⟩⟩
    · dsimp only
      rw [length, List.range_succ, List.map_append, ← List.append_assoc]
      show e.names.Perm _
      rw [names]
      exact account.names.append_right _
    · dsimp only
      rw [length, List.range_succ, List.map_append, List.map_append, agrees.facts, account.facts]
      rfl
  · exact ⟨x, e, requested, Or.inr ⟨failed, account.agrees agrees names⟩⟩

/-! ## Requests -/

theorem accounts_ensure (cancelled : Bool) :
    Accounts P (ensure cancelled : Action (Discharger (Recorded σ)) (Recorded σ)) := by
  rintro d ⟨symbols, account⟩
  obtain ⟨x, e, ensured, agrees, names, _⟩ := exists_ensure account.opening cancelled
  rw [ensured]
  exact ⟨symbols, account.agrees agrees names⟩

theorem accounts_pushConstraint (cancelled : Bool) (f : Formula Term) :
    Accounts P (pushConstraint cancelled f : Action (Discharger (Recorded σ)) Unit) := by
  rintro d ⟨symbols, account⟩
  unfold pushConstraint
  rw [perform_get_bind]
  dsimp only
  split
  next => exact ⟨symbols, account⟩
  next =>
    rw [perform_get_bind]
    split
    next => exact ⟨symbols, account⟩
    next =>
      rw [perform_get_bind]
      obtain ⟨x, e, asserted, ⟨rfl, account'⟩ | ⟨⟨fault, rfl⟩, account'⟩⟩ :=
        account.assert cancelled f
      · rw [perform_bind_ok asserted, perform_modify]
        exact ⟨symbols, account'⟩
      · rw [perform_bind_error asserted]
        exact ⟨symbols, account'⟩

theorem accounts_freshSymbol (cancelled : Bool) {text : String} (stem : P (symbolStem text)) :
    Accounts P (freshSymbol cancelled text : Action (Discharger (Recorded σ)) String) := by
  refine .bind (accounts_ensure cancelled) fun _ => ?_
  rintro d ⟨symbols, account⟩
  obtain ⟨x, e, declared, handles, ⟨rfl, account'⟩ | ⟨⟨fault, rfl⟩, account'⟩⟩ :=
    account.declare cancelled text stem
  · rw [perform_bind_ok (perform_nextName text), perform_bind_ok declared, perform_modify_bind]
    refine Accounts.bind (k := fun _ => pure (symbolStem text ++ toString d.nonce))
      (accounts_pushConstraint cancelled _) (fun _ _ kept => kept) _ ?_
    refine ⟨_, { account' with handles := ?_ }⟩
    rw [handles, List.map_append]
    exact account.handles.append (.refl _)
  · rw [perform_bind_ok (perform_nextName text), perform_bind_error declared]
    exact ⟨symbols, account'⟩

theorem accounts_pushDimensions (cancelled : Bool) (symbol : String) (place : Nat)
    (dims : List UInt64) :
    Accounts P (pushDimensions cancelled symbol place dims :
      Action (Discharger (Recorded σ)) Unit) := by
  induction dims generalizing place with
  | nil => exact fun _ account => account
  | cons dim dims ih => exact .bind (accounts_pushConstraint cancelled _) fun _ => ih (place + 1)

theorem accounts_assertShape (cancelled : Bool) (symbol : String) (dims : List UInt64) :
    Accounts P (assertShape cancelled symbol dims : Action (Discharger (Recorded σ)) Unit) := by
  intro d account
  unfold assertShape
  rw [perform_get_bind]
  split
  next => exact account
  next => exact accounts_pushDimensions cancelled symbol 0 dims d account

theorem accounts_refutation (literal : P "v") (o : Obligation) :
    Accounts P (refutation o : Action (Discharger (Recorded σ)) (Formula Term × String)) := by
  rintro d ⟨symbols, account⟩
  unfold refutation
  split
  next n =>
    obtain ⟨x, e, declared, _, ⟨rfl, account'⟩ | ⟨⟨fault, rfl⟩, account'⟩⟩ :=
      account.declare false "v" literal
    · rw [perform_bind_ok (perform_nextName "v"), perform_bind_ok declared]
      exact ⟨_, account'⟩
    · rw [perform_bind_ok (perform_nextName "v"), perform_bind_error declared]
      exact ⟨symbols, account'⟩
  next => exact ⟨symbols, account⟩
  next => exact ⟨symbols, account⟩

theorem accounts_solve (literal : P "v") (o : Obligation) :
    Accounts P (solve o : Action (Discharger (Recorded σ)) (Outcome × Option Violation)) := by
  refine .bind (accounts_ensure false) fun _ => .bind (accounts_refutation literal o) fun goal => ?_
  rintro d ⟨symbols, account⟩
  obtain ⟨x, e, ensured, agrees, names, current⟩ := exists_ensure account.opening false
  rcases x with fault | r
  · rw [perform_bind_error ensured]
    exact ⟨symbols, account.agrees agrees names⟩
  · have checked : (Solver.check false goal.1 : Action (Recorded σ) Logic.Verdict).perform r = _ :=
      Recorded.perform_pass (Solver.check false goal.1) r
    rw [perform_bind_ok ensured, checked]
    dsimp only
    rw [perform_modify_bind]
    have account' : Account P { e with
        session := some { r with session := ((Solver.check false goal.1).perform r.session).2 }
        observed := e.observed ++ [.decision e.config.profile] } symbols := by
      refine account.agrees ⟨agrees.opening, agrees.nonce, agrees.facts, agrees.handles⟩ ?_
      rw [← names, Discharger.names, Discharger.names, current r rfl]
      rfl
    rcases ((Solver.check false goal.1).perform r.session).1 with fault | verdict
    · exact ⟨symbols, account'⟩
    · exact ⟨symbols, account'.agrees ⟨rfl, rfl, rfl, rfl⟩ rfl⟩

theorem accounts_discharge (literal : P "v") (cancelled : Bool) (o : Obligation) :
    Accounts P (discharge cancelled o :
      Action (Discharger (Recorded σ)) (Outcome × Option Violation)) := by
  refine .bind (accounts_requireStated o) fun _ => ?_
  cases cancelled with
  | true => exact fun _ account => account
  | false => exact accounts_solve literal o

theorem accounts_flushFrom (literal : P "v") (gaveUp : Nat → Bool) (i : Nat) (os : List Obligation)
    (h : ∃ symbols, Account P d symbols) :
    ∃ symbols, Account P ((flushFrom gaveUp i os).run d).2 symbols := by
  induction os generalizing d i with
  | nil => exact h
  | cons o rest ih =>
      rw [run_flushFrom_cons]
      split
      next => exact h
      next =>
        have solved := accounts_solve literal o d h
        split
        next failed =>
          rw [failed] at solved
          obtain ⟨symbols, account⟩ := solved
          exact ⟨symbols, account.agrees ⟨rfl, rfl, rfl, rfl⟩ rfl⟩
        next done =>
          rw [done] at solved
          obtain ⟨symbols, account⟩ := solved
          exact ih (i + 1) ⟨symbols, account.agrees ⟨rfl, rfl, rfl, rfl⟩ rfl⟩

/-- One request keeps an account. -/
theorem accounts_after (literal : P "v") {q : Dialogue.Request}
    (stem : ∀ cancelled text, q = .fresh cancelled text → P (symbolStem text))
    (h : ∃ symbols, Account P d symbols) : ∃ symbols, Account P (d.after q) symbols := by
  cases q with
  | fresh cancelled text => exact accounts_freshSymbol cancelled (stem cancelled text rfl) d h
  | push cancelled fact => exact accounts_pushConstraint cancelled fact d h
  | assertShape cancelled symbol dims => exact accounts_assertShape cancelled symbol dims d h
  | enqueue o => exact accounts_enqueue o d h
  | flush gaveUp => exact accounts_flushFrom literal gaveUp 0 d.queue h
  | discharge cancelled o => exact accounts_discharge literal cancelled o d h

/-- Requests keep an account. -/
theorem accounts_afterAll (literal : P "v") {qs : List Dialogue.Request}
    (stems : ∀ cancelled text, .fresh cancelled text ∈ qs → P (symbolStem text))
    (h : ∃ symbols, Account P d symbols) : ∃ symbols, Account P (d.afterAll qs) symbols := by
  induction qs generalizing d with
  | nil => exact h
  | cons q qs ih =>
      have first := accounts_after literal (q := q)
        (fun cancelled text eq => stems cancelled text (eq ▸ List.mem_cons_self)) h
      exact ih (fun cancelled text mem => stems cancelled text (List.mem_cons_of_mem q mem)) first

end Accounts

/-! ## Distinct names -/

section Distinct

variable {σ : Type} {d : Discharger (Recorded σ)} {symbols : List (String × Nat)}

/-- The stem can be told from a number behind it, and is not that of facts. -/
def Apart (stem : String) : Prop := endsInDigit stem = false ∧ stem ≠ "fact"

theorem apart_symbolStem (text : String) (h : isApart text = true) : Apart (symbolStem text) := by
  simp only [isApart, Bool.and_eq_true, bne_iff_ne, Bool.not_eq_true'] at h
  exact ⟨(endsInDigit_symbolStem text).trans h.2, fun fact => h.1 (eq_fact_of_symbolStem fact)⟩

/-- Names with stems of their own are distinct. -/
theorem Account.nodup (account : Account Apart d symbols) : d.names.Nodup := by
  have numbers : (symbols.map Prod.snd).Nodup :=
    (List.pairwise_map.mpr account.ordered).imp Nat.ne_of_lt
  have fact : endsInDigit "fact" = false := by decide
  rw [account.names.nodup_iff, List.nodup_cons, List.nodup_append]
  refine ⟨fun mem => ?_, ?_, ?_, ?_⟩
  · -- The function is the one name without a number behind it.
    have digit : endsInDigit shapeFunction = true := by
      rcases List.mem_append.mp mem with mem | mem
      · obtain ⟨s, _, eq⟩ := List.mem_map.mp mem
        exact eq ▸ endsInDigit_numbered s
      · obtain ⟨n, _, eq⟩ := List.mem_map.mp mem
        exact eq ▸ endsInDigit_numbered ("fact", n)
    revert digit
    decide
  · refine List.Nodup.map_on (fun s hs t ht eq => ?_) numbers.of_map
    exact numbered_inj (account.stems s hs).1 (account.stems t ht).1 eq
  · exact List.nodup_range.map factName_injective
  · intro name symbol other counted eq
    obtain ⟨s, hs, rfl⟩ := List.mem_map.mp symbol
    obtain ⟨n, _, rfl⟩ := List.mem_map.mp counted
    have same := numbered_inj (b := ("fact", n)) (account.stems s hs).1 fact eq
    exact (account.stems s hs).2 (congrArg Prod.fst same)

/-- The function, the handles and the facts are among the names. -/
theorem Account.listed {P : String → Prop} (account : Account P d symbols) :
    (shapeFunction :: (d.handles ++ d.facts.map Prod.fst)).Subperm d.names := by
  have listed : (shapeFunction :: (d.handles ++ d.facts.map Prod.fst)).Sublist
      (shapeFunction :: (symbols.map numbered ++ (List.range d.facts.length).map factName)) :=
    (account.handles.append (account.facts ▸ .refl _)).cons_cons _
  exact listed.subperm.trans account.names.symm.subperm

/-- A new discharger that records the names. -/
def recording (config : SolverConfig) (opening : Bool → Except Fault σ) (ledger : Ledger) :
    Discharger (Recorded σ) :=
  { config, opening := fun cancelled => (opening cancelled).map ({ session := · }), ledger }

theorem forget_recording (config : SolverConfig) (opening : Bool → Except Fault σ)
    (ledger : Ledger) : (recording config opening ledger).forget = { config, opening, ledger } :=
  mapSession_wrapped fun _ => rfl

theorem account_recording (P : String → Prop) (config : SolverConfig)
    (opening : Bool → Except Fault σ) (ledger : Ledger) :
    Account P (recording config opening ledger) [] where
  opening cancelled r h := by
    change (opening cancelled).map _ = _ at h
    cases found : opening cancelled with
    | error fault =>
        rw [found] at h
        cases h
    | ok s =>
        rw [found] at h
        cases h
        rfl
  names := .refl _
  facts := rfl
  handles := .refl _
  ordered := .nil
  below _ h := absurd h List.not_mem_nil
  stems _ h := absurd h List.not_mem_nil

variable [Solver σ]

/-- The names that requests to a new discharger introduce into its session. -/
def introduced (config : SolverConfig) (opening : Bool → Except Fault σ) (ledger : Ledger)
    (qs : List Dialogue.Request) : List String :=
  (((recording config opening ledger).afterAll qs).session.map Recorded.introduced).getD []

/-- The handles and the names of facts are among the names in the session. -/
theorem subperm_introduced (config : SolverConfig) (opening : Bool → Except Fault σ)
    (ledger : Ledger) (qs : List Dialogue.Request) :
    let d := ({ config, opening, ledger } : Discharger σ).afterAll qs
    (d.handles ++ d.facts.map Prod.fst).Subperm (introduced config opening ledger qs) := by
  intro d
  obtain ⟨symbols, account⟩ := accounts_afterAll (P := fun _ => True) trivial
    (fun _ _ _ => trivial) ⟨[], account_recording _ config opening ledger⟩
  have same : d = ((recording config opening ledger).afterAll qs).forget := by
    rw [forget_afterAll, forget_recording]
  have listed := account.listed
  rw [same]
  unfold introduced
  generalize (recording config opening ledger).afterAll qs = e at listed ⊢
  rcases session : e.session with _ | r
  · -- Nothing was introduced, so there are no handles and facts either.
    have unopened : e.names = [shapeFunction] := by rw [names, session]; rfl
    rw [unopened] at listed
    have none := List.length_eq_zero_iff.mp
      (Nat.le_zero.mp (Nat.succ_le_succ_iff.mp listed.length_le))
    exact none ▸ .refl _
  · have opened : e.names = r.introduced := by rw [names, session]; rfl
    rw [opened] at listed
    exact (List.sublist_cons_self _ _).subperm.trans listed

/-- The names in a session are distinct, if no handle is made from a text that ends in a digit
or from `fact`.  The handles and the facts are among them. -/
theorem introduced_nodup (config : SolverConfig) (opening : Bool → Except Fault σ)
    (ledger : Ledger) (qs : List Dialogue.Request)
    (apart : ∀ cancelled text, .fresh cancelled text ∈ qs → isApart text = true) :
    let d := ({ config, opening, ledger } : Discharger σ).afterAll qs
    (d.handles ++ d.facts.map Prod.fst).Subperm (introduced config opening ledger qs) ∧
      (introduced config opening ledger qs).Nodup := by
  intro d
  obtain ⟨symbols, account⟩ := accounts_afterAll (P := Apart) (apart_symbolStem "v" rfl)
    (fun cancelled text mem => apart_symbolStem text (apart cancelled text mem))
    ⟨[], account_recording Apart config opening ledger⟩
  refine ⟨subperm_introduced config opening ledger qs, ?_⟩
  have nodup := account.nodup
  unfold introduced
  generalize (recording config opening ledger).afterAll qs = e at nodup ⊢
  rcases session : e.session with _ | r
  · exact List.nodup_nil
  · have opened : e.names = r.introduced := by rw [names, session]; rfl
    rwa [opened] at nodup

end Distinct

/-- A handle with a shape, and an obligation on a literal. -/
def shapedHandle : List Dialogue.Request :=
  [.fresh false "img", .assertShape false "img0" [3],
   .discharge false ⟨.literal 7, .range 0 5, .zero⟩]

/-- Names of all four kinds, and no two of them the same. -/
theorem introduced_nodup_shapedHandle :
    introduced {} (openInProcess clauseLearning {}) ⟨"", "", []⟩ shapedHandle =
        ["tensor_dim", "img0", "fact0", "fact1", "v1"] ∧
      (introduced {} (openInProcess clauseLearning {}) ⟨"", "", []⟩ shapedHandle).Nodup := by
  have apart : ∀ cancelled text, .fresh cancelled text ∈ shapedHandle → isApart text = true := by
    intro cancelled text mem
    simp only [shapedHandle, List.mem_cons, Dialogue.Request.fresh.injEq, reduceCtorEq,
      List.not_mem_nil, or_false] at mem
    rw [mem.2]
    decide
  obtain ⟨_, nodup⟩ :=
    introduced_nodup {} (openInProcess clauseLearning {}) ⟨"", "", []⟩ shapedHandle apart
  exact ⟨by decide +kernel, nodup⟩

/-- Eleven handles.  The first is made from `a1`, and the last from `a`. -/
def elevenHandles : List Dialogue.Request :=
  ("a1" :: List.replicate 9 "b" ++ ["a"]).map (.fresh false)

theorem count_handles_elevenHandles :
    (({ config := {}, opening := openInProcess clauseLearning {}, ledger := ⟨"", "", []⟩ } :
      Discharger BitBlaster).afterAll elevenHandles).handles.count "a10" = 2 := by
  rw [elevenHandles, Dialogue.handles_afterAll_fresh]
  decide +kernel

/-- The first of the handles and the last one are both called `a10`. -/
theorem introduced_handles_collide :
    let d := ({ config := {}, opening := openInProcess clauseLearning {},
                ledger := ⟨"", "", []⟩ } : Discharger BitBlaster).afterAll elevenHandles
    d.handles.count "a10" = 2 ∧
      ¬(introduced {} (openInProcess clauseLearning {}) ⟨"", "", []⟩ elevenHandles).Nodup := by
  have twice := count_handles_elevenHandles
  have listed := subperm_introduced {} (openInProcess clauseLearning {}) ⟨"", "", []⟩ elevenHandles
  have counted := ((List.sublist_append_left _ _).subperm.trans listed).count_le "a10"
  refine ⟨twice, fun nodup => ?_⟩
  have once := counted.trans (List.nodup_iff_count_le_one.mp nodup "a10")
  exact absurd (twice.symm.trans_le once) (by decide)

end Discharger

end ResourceSafety
