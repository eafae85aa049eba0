import ResourceSafety.Logic.External
import ResourceSafety.Proofs.Logic.Inquiry

/-!
# The goal stack of the external session

The external solver keeps what it is told until it is popped.  A declaration or a fact that is
sent while a goal is on the stack is lost with the goal, and a goal that is never popped joins
the facts and turns later obligations into proofs.

`External.Sends` says once what a request can send.  A declaration or a fact is a single line.  A
goal is pushed, asserted and asked about, at most one further question follows, and it is popped
if the session is open at the end.  Nothing is said there of what the solver replies: replies
decide which question follows and whether the session ends, and every other way out of a check
comes to the same lines.

From it follows that the stack is empty between requests while the session is open
(`External.Settled`), and that each line is sent at the depth where it belongs
(`External.goals_balanced`).
-/

namespace ResourceSafety.Logic

open Logic.Action

namespace Inquiry.Request

/-- The line that declares a symbol. -/
def constantLine (name : String) : String := "(declare-const " ++ name ++ " Int)"

/-- The line that declares a function. -/
def functionLine (name : String) (arity : Nat) : String :=
  "(declare-fun " ++ name ++ " (" ++ " ".intercalate (List.replicate arity "Int") ++ ") Int)"

/-- The line that asserts a fact. -/
def factLine (name : String) (fact : Formula Term) : String :=
  if name == "" then "(assert " ++ fact.render ++ ")"
  else "(assert (! " ++ fact.render ++ " :named " ++ name ++ "))"

/-- The line that asserts a goal. -/
def goalLine (goal : Formula Term) : String := "(assert " ++ goal.render ++ ")"

/-- The line that declares what the request declares, or asserts what it asserts or asks. -/
def line : Request → String
  | constant name => constantLine name
  | function name arity => functionLine name arity
  | assert name fact => factLine name fact
  | check _ goal => goalLine goal

/-- The number of goals on the stack where that line belongs: a goal stands alone on it, and all
else below it. -/
def depth : Request → Nat
  | check _ _ => 1
  | _ => 0

end Inquiry.Request

namespace External

open Inquiry (Request)

/-- The session after a request. -/
def step (s : External) : Request → External
  | .constant name => ((declareConstant name).perform s).2
  | .function name arity => ((declareFunction name arity).perform s).2
  | .assert name fact => ((External.assert name fact).perform s).2
  | .check cancelled goal => ((check cancelled goal).perform s).2

/-- The session after requests. -/
def run (s : External) (qs : List Request) : External := qs.foldl step s

/-- The lines push `n` goals more than they pop. -/
def AtDepth (n : Nat) (lines : List String) : Prop :=
  lines.count "(push 1)" = lines.count "(pop 1)" + n

/-! ## Lines and depths -/

section

variable {n : Nat} {lines more : List String}

theorem AtDepth.push (h : AtDepth n lines) : AtDepth (n + 1) (lines ++ ["(push 1)"]) := by
  have push : ["(push 1)"].count "(push 1)" = 1 := by decide
  have pop : ["(push 1)"].count "(pop 1)" = 0 := by decide
  rw [AtDepth] at h ⊢
  rw [List.count_append, List.count_append, push, pop, h]
  rfl

theorem AtDepth.pop (h : AtDepth (n + 1) lines) : AtDepth n (lines ++ ["(pop 1)"]) := by
  have push : ["(pop 1)"].count "(push 1)" = 0 := by decide
  have pop : ["(pop 1)"].count "(pop 1)" = 1 := by decide
  rw [AtDepth] at h ⊢
  rw [List.count_append, List.count_append, push, pop, h, Nat.add_zero, Nat.add_right_comm,
    Nat.add_assoc]

/-- Lines that neither push nor pop stay at their depth. -/
theorem AtDepth.append (h : AtDepth n lines) (push : "(push 1)" ∉ more) (pop : "(pop 1)" ∉ more) :
    AtDepth n (lines ++ more) := by
  rw [AtDepth, List.count_append, List.count_append, List.count_eq_zero.mpr push,
    List.count_eq_zero.mpr pop]
  exact h

theorem ne_of_second {a b : String} (h : a.toList[1]? ≠ b.toList[1]?) : a ≠ b := fun same =>
  h (same ▸ rfl)

end

theorem second_line (q : Request) : q.line.toList[1]? = some 'd' ∨ q.line.toList[1]? = some 'a' := by
  cases q with
  | constant name =>
    show ("(declare-const " ++ name ++ " Int)").toList[1]? = some 'd' ∨ _
    exact .inl (by simp)
  | function name arity =>
    show ("(declare-fun " ++ name ++ " (" ++ _ ++ ") Int)").toList[1]? = some 'd' ∨ _
    exact .inl (by simp)
  | assert name fact =>
    rw [Request.line, Request.factLine]
    split
    · exact .inr (by simp)
    · exact .inr (by simp)
  | check cancelled goal => exact .inr (by simp [Request.line, Request.goalLine])

/-- What is declared, asserted or asked is neither a push nor a pop. -/
theorem line_ne (q : Request) {line : String} (second : line.toList[1]? = some 'p') :
    line ≠ q.line := by
  refine ne_of_second ?_
  rw [second]
  obtain d | a := second_line q
  · simp [d]
  · simp [a]

/-! ## What is sent -/

variable {s t : External}

/-- The session with one more line sent. -/
def say (s : External) (line : String) : External := { s with sent := s.sent ++ [line] }

theorem perform_send (opened : s.closed = false) (line : String) :
    (send line).perform s = (.ok ⟨⟩, s.say line) := by
  unfold send
  rw [perform_get_bind, opened]
  rfl

theorem perform_send_closed (closed : s.closed = true) (line : String) :
    (send line).perform s = (.error (.solverUnavailable "session closed" none), s) := by
  unfold send
  rw [perform_get_bind, closed]
  rfl

/-- The session with the goal taken back, when it is open. -/
def popped (s : External) : External := if s.closed then s else s.say "(pop 1)"

theorem closed_popped (s : External) : s.popped.closed = s.closed := by
  unfold popped
  split <;> rfl

theorem sent_popped (s : External) :
    s.popped.sent = s.sent ++ if s.closed then [] else ["(pop 1)"] := by
  unfold popped
  split
  · exact (List.append_nil _).symm
  · rfl

theorem perform_popGoal (s : External) : popGoal.perform s = (.ok ⟨⟩, s.popped) := by
  unfold popGoal popped
  rw [perform_get_bind]
  cases opened : s.closed with
  | true => rfl
  | false => exact perform_send opened _

/-- Nothing more was sent. -/
def Silent (s t : External) : Prop := t.sent = s.sent

theorem Silent.refl (s : External) : s.Silent s := rfl

theorem Silent.trans {u : External} (h : s.Silent t) (h' : t.Silent u) : s.Silent u :=
  Eq.trans h' h

theorem silent_receive : Moves Silent receive := by
  intro s
  unfold receive
  rw [perform_get_bind]
  dsimp only
  split
  · rfl
  · rw [perform_set_bind]
    split
    · rfl
    · rfl

theorem silent_receive_bind {α : Type} {k : String → Action External α}
    (next : ∀ text, Moves Silent (k text)) : Moves Silent (receive >>= k) :=
  silent_receive.bind .trans next

/-- The questions that may follow an answer. -/
def followUps : List (List String) :=
  [[], ["(get-model)"], ["(get-unsat-core)"], ["(get-info :reason-unknown)"]]

/-- At most one question was sent. -/
def Asks (s t : External) : Prop := ∃ followUp ∈ followUps, t.sent = s.sent ++ followUp

theorem Silent.asks (h : s.Silent t) : s.Asks t :=
  ⟨[], by simp [followUps], Eq.trans h (List.append_nil _).symm⟩

theorem Silent.trans_asks {u : External} (h : s.Silent t) (h' : t.Asks u) : s.Asks u := by
  obtain ⟨followUp, known, sent⟩ := h'
  exact ⟨followUp, known, sent.trans (congrArg (· ++ followUp) h)⟩

theorem Asks.trans_silent {u : External} (h : s.Asks t) (h' : t.Silent u) : s.Asks u := by
  obtain ⟨followUp, known, sent⟩ := h
  exact ⟨followUp, known, Eq.trans h' sent⟩

/-- A question, and what is done about the answer. -/
theorem asks_question {α : Type} {line : String} {k : PUnit → Action External α}
    (known : [line] ∈ followUps) (next : ∀ x, Moves Silent (k x)) : Moves Asks (send line >>= k) := by
  intro s
  cases opened : s.closed with
  | true =>
    rw [perform_bind_error (perform_send_closed opened line)]
    exact (Silent.refl s).asks
  | false =>
    rw [perform_bind_ok (perform_send opened line)]
    exact ⟨[line], known, next _ _⟩

theorem asks_askReason : Moves Asks askReason :=
  Moves.tryCatch id .trans_silent
    (asks_question (by simp [followUps]) fun _ => silent_receive_bind fun _ => .refl)
    fun _ => .refl

theorem asks_askVerdict : Moves Asks askVerdict := by
  refine silent_receive.seq Silent.asks Silent.trans_asks fun status => ?_
  split
  · refine asks_question (by simp [followUps]) fun _ => silent_receive_bind fun text => ?_
    split
    · exact .refl
    · exact .refl
  · refine asks_question (by simp [followUps]) fun _ => silent_receive_bind fun text => ?_
    split
    · exact .refl
    · exact .refl
  · exact asks_askReason.seq id .trans_silent fun _ => .refl
  · exact fun s => (Silent.refl s).asks

/-- A goal is asserted and asked about, and at most one question follows. -/
theorem sent_decideGoal (opened : s.closed = false) (goal : Formula Term) :
    ∃ followUp ∈ followUps, ((decideGoal goal).perform s).2.sent =
      s.sent ++ Request.goalLine goal :: "(check-sat)" :: followUp := by
  have asks : Moves Asks (tryCatch askVerdict fun fault => do
      if fault == .badReply .hung && (← get).sent.getLast? == some "(check-sat)" then
        return .unknown "solver killed after timeout"
      else throw fault) := by
    refine asks_askVerdict.tryCatch id .trans_silent fun fault s => ?_
    rw [perform_get_bind]
    split
    · rfl
    · rfl
  unfold decideGoal
  rw [perform_bind_ok (perform_send opened _), perform_bind_ok (perform_send (by exact opened) _)]
  obtain ⟨followUp, known, sent⟩ := asks ((s.say _).say _)
  exact ⟨followUp, known, by rw [sent]; simp [say, Request.goalLine]⟩

/-- The goal is taken back on both ways out. -/
theorem state_popping {α : Type} (a : Action External α) (s : External) :
    (((tryCatch a fun fault => do popGoal; throw fault) >>= fun x => do popGoal; return x).perform
      s).2 = (a.perform s).2.popped := by
  have popThen {β : Type} (b : Action External β) (t : External) :
      (popGoal >>= fun _ => b).perform t = b.perform t.popped :=
    perform_bind_ok (perform_popGoal t)
  rcases run : a.perform s with ⟨fault | x, t⟩
  · have failed : (tryCatch a fun fault => do popGoal; throw fault).perform s =
        (.error fault, t.popped) := by
      rw [perform_tryCatch, run]
      exact popThen _ t
    rw [perform_bind_error failed]
  · rw [perform_bind_ok (x := x) (t := t), popThen]
    · rfl
    · rw [perform_tryCatch, run]

/-- Before it sends anything, a request looks whether it knows the symbols. -/
theorem perform_requireSymbols (s : External) (f : Formula Term) :
    (requireSymbols f).perform s = (.ok ⟨⟩, s) ∨
      ∃ fault, (requireSymbols f).perform s = (.error fault, s) := by
  unfold requireSymbols
  rw [perform_get_bind]
  dsimp only
  split
  · exact .inr ⟨_, rfl⟩
  · exact .inl rfl

/-- What is sent after a goal was asserted. -/
def asking (followUp : List String) (closed : Bool) : List String :=
  "(check-sat)" :: followUp ++ if closed then [] else ["(pop 1)"]

/-- The lines of a goal. -/
def round (goal : Formula Term) (followUp : List String) (closed : Bool) : List String :=
  "(push 1)" :: Request.goalLine goal :: asking followUp closed

/-- A check is refused before it sends anything, or its goal goes all the way. -/
theorem check_cases (s : External) (cancelled : Bool) (goal : Formula Term) :
    (∃ fault, (check cancelled goal).perform s = (.error fault, s)) ∨
      s.closed = false ∧ ∃ followUp ∈ followUps, ((check cancelled goal).perform s).2.sent =
        s.sent ++ round goal followUp ((check cancelled goal).perform s).2.closed := by
  unfold check
  cases cancelled with
  | true => exact .inl ⟨_, rfl⟩
  | false =>
    simp only [Bool.false_eq_true, if_false]
    obtain known | ⟨fault, refused⟩ := perform_requireSymbols s goal
    · rw [perform_bind_ok known]
      cases opened : s.closed with
      | true => exact .inl ⟨_, by rw [perform_bind_error (perform_send_closed opened _)]⟩
      | false =>
        rw [perform_bind_ok (perform_send opened _)]
        obtain ⟨followUp, asked, sent⟩ := sent_decideGoal (s := s.say "(push 1)") opened goal
        refine .inr ⟨rfl, followUp, asked, ?_⟩
        rw [state_popping, sent_popped, closed_popped, sent]
        simp [round, asking, say]
    · exact .inl ⟨fault, by rw [perform_bind_error refused]⟩

/-- What a request sends, and what becomes of the session. -/
inductive Sends (s : External) : Request → External → Prop
  /-- It is refused, or it declares what is declared already. -/
  | nothing {q : Request} : s.Sends q s
  /-- A declaration or a fact. -/
  | base {q : Request} {t : External} (depth : q.depth = 0) (before : s.closed = false)
      (after : t.closed = false) (sent : t.sent = s.sent ++ [q.line]) : s.Sends q t
  /-- A goal. -/
  | goal {cancelled : Bool} {goal : Formula Term} {t : External} (before : s.closed = false)
      (followUp : List String) (known : followUp ∈ followUps)
      (sent : t.sent = s.sent ++ round goal followUp t.closed) : s.Sends (.check cancelled goal) t

/-- A base line that is sent, and what is then noted. -/
theorem sends_send {q : Request} (depth : q.depth = 0) {k : PUnit → Action External Unit}
    (noted : ∀ t, t.Silent ((k ⟨⟩).perform t).2 ∧ ((k ⟨⟩).perform t).2.closed = t.closed) :
    s.Sends q ((send q.line >>= k).perform s).2 := by
  cases opened : s.closed with
  | true =>
    rw [perform_bind_error (perform_send_closed opened _)]
    exact .nothing
  | false =>
    rw [perform_bind_ok (perform_send opened _)]
    obtain ⟨silent, same⟩ := noted (s.say q.line)
    exact .base depth opened (same.trans opened) silent

theorem sends_step (s : External) (q : Request) : s.Sends q (s.step q) := by
  cases q with
  | constant name =>
    unfold step declareConstant
    dsimp only
    rw [perform_get_bind]
    split
    · exact .nothing
    · exact sends_send rfl fun t => ⟨rfl, rfl⟩
  | function name arity =>
    unfold step declareFunction
    dsimp only
    rw [perform_get_bind]
    split
    · split
      · exact .nothing
      · exact .nothing
    · exact sends_send (q := .function name arity) rfl fun t => ⟨rfl, rfl⟩
  | assert name fact =>
    unfold step External.assert
    dsimp only
    obtain known | ⟨fault, refused⟩ := perform_requireSymbols s fact
    · rw [perform_bind_ok known]
      have sends := sends_send (s := s) (q := .assert name fact) (k := pure) rfl fun t => ⟨rfl, rfl⟩
      rw [bind_pure, Request.line, Request.factLine, apply_ite send] at sends
      exact sends
    · rw [perform_bind_error refused]
      exact .nothing
  | check cancelled goal =>
    obtain ⟨fault, refused⟩ | ⟨opened, followUp, known, sent⟩ := check_cases s cancelled goal
    · rw [step, refused]
      exact .nothing
    · exact .goal opened followUp known sent

/-! ## Depths along a run -/

/-- The lines of a check besides the goal. -/
def sessionLines : List String :=
  ["(push 1)", "(check-sat)", "(get-model)", "(get-unsat-core)", "(get-info :reason-unknown)",
   "(pop 1)"]

theorem line_notMem_sessionLines (q : Request) : q.line ∉ sessionLines := by
  have others : ∀ line ∈ sessionLines, line.toList[1]? ≠ some 'd' ∧ line.toList[1]? ≠ some 'a' := by
    decide
  intro mem
  obtain ⟨d, a⟩ := others _ mem
  exact (second_line q).elim d a

theorem asking_subset {followUp : List String} (known : followUp ∈ followUps) (closed : Bool) :
    asking followUp closed ⊆ sessionLines := by
  have all : ∀ followUp ∈ followUps, ∀ closed, asking followUp closed ⊆ sessionLines := by decide
  exact all followUp known closed

/-- No goal is on the stack of an open session. -/
def Settled (s : External) : Prop := s.closed = false → AtDepth 0 s.sent

theorem Settled.goal (settled : s.Settled) (before : s.closed = false) {goal : Formula Term}
    {followUp : List String} (known : followUp ∈ followUps)
    (sent : t.sent = s.sent ++ round goal followUp t.closed) : t.Settled := by
  intro after
  have neither : ∀ followUp ∈ followUps, "(push 1)" ∉ followUp ∧ "(pop 1)" ∉ followUp := by decide
  obtain ⟨push, pop⟩ := neither followUp known
  have line {p : String} (second : p.toList[1]? = some 'p') : p ≠ Request.goalLine goal :=
    line_ne (.check false goal) second
  have inside : AtDepth 1 (s.sent ++ ["(push 1)"] ++
      Request.goalLine goal :: "(check-sat)" :: followUp) :=
    (settled before).push.append (by simp [line, push]) (by simp [line, pop])
  rw [sent, round, asking, after]
  simpa using inside.pop

/-- Where a line stands once among others, what stands before it is known. -/
theorem atDepth_of_split {n : Nat} {line : String} {sent pre post pre' post' : List String}
    (h : AtDepth n (sent ++ pre)) (before : line ∉ pre) (after : line ∉ post)
    (split : pre ++ line :: post = pre' ++ line :: post') : AtDepth n (sent ++ pre') := by
  obtain ⟨rfl, -⟩ := (List.append_cons_inj_of_notMem before after).mp split
  exact h

/-- A request that begins with an empty stack sends its line where it belongs, and leaves the
stack empty if it leaves the session open. -/
theorem Settled.sends {q : Request} (settled : s.Settled) (sends : s.Sends q t) :
    t.Settled ∧ ∃ lines, t.sent = s.sent ++ lines ∧
      (∀ pre post, lines = pre ++ q.line :: post → AtDepth q.depth (s.sent ++ pre)) ∧
      ∀ line ∈ lines, line = q.line ∨ q.depth = 1 ∧ line ∈ sessionLines := by
  cases sends with
  | nothing => exact ⟨settled, [], by simp, by simp, by simp⟩
  | base depth before after sent =>
    have stack := settled before
    refine ⟨fun _ => ?_, [q.line], sent, fun pre post split => ?_, by simp⟩
    · rw [sent]
      exact stack.append (by simpa using line_ne q rfl) (by simpa using line_ne q rfl)
    · have here : AtDepth q.depth (s.sent ++ []) := by
        rw [depth, List.append_nil]
        exact stack
      exact atDepth_of_split here List.not_mem_nil List.not_mem_nil split
  | @goal cancelled goal _ before followUp known sent =>
    have asked := asking_subset known t.closed
    have pushed : "(push 1)" ∈ sessionLines := List.mem_cons_self
    have apart := line_notMem_sessionLines (.check cancelled goal)
    refine ⟨settled.goal before known sent, _, sent, fun pre post split => ?_, fun line mem => ?_⟩
    · have early : (Inquiry.Request.check cancelled goal).line ∉ ["(push 1)"] := fun mem =>
        apart (List.mem_singleton.mp mem ▸ pushed)
      exact atDepth_of_split (settled before).push early (fun mem => apart (asked mem)) split
    · obtain rfl | rfl | mem : line = "(push 1)" ∨ line = _ ∨ line ∈ asking followUp t.closed := by
        simpa [round] using mem
      · exact .inr ⟨rfl, pushed⟩
      · exact .inl rfl
      · exact .inr ⟨rfl, asked mem⟩

theorem settled_run (settled : s.Settled) (qs : List Request) : (s.run qs).Settled := by
  induction qs generalizing s with
  | nil => exact settled
  | cons q qs ih => exact ih (settled.sends (sends_step s q)).1

/-- A session begins with its options and nothing else sent. -/
theorem sent_start {versions : Versions} {find : String → Option SolverProgram} {path : String}
    {timeout : Nat} {cancelled : Bool}
    (started : start versions find path timeout cancelled = .ok s) :
    s.sent = setup timeout := by
  unfold start at started
  dsimp only at started
  split at started
  · cases started
  next program found =>
    simp only [bind, Except.bind] at started
    split at started
    · cases started
    · split at started
      · cases started
      · cases started
        rfl

theorem settled_start {versions : Versions} {find : String → Option SolverProgram} {path : String}
    {timeout : Nat} {cancelled : Bool}
    (started : start versions find path timeout cancelled = .ok s) : s.Settled := by
  intro _
  have options : ∀ line ∈ setup timeout, line.toList[1]? = some 's' := by
    unfold setup
    split
    · decide
    · simp [toString]
  have apart : ∀ line, line.toList[1]? = some 'p' → line ∉ setup timeout := by
    intro line second mem
    rw [options line mem] at second
    cases second
  have empty : AtDepth 0 [] := rfl
  rw [sent_start started]
  exact empty.append (apart _ rfl) (apart _ rfl)

/-- No goal is ever on the stack between requests to an open session.  Whatever the solver
replies, a request only adds lines.  The line that declares or asserts is sent when as many goals
were popped as pushed, and a goal is asserted with one goal more pushed than popped; all other
lines belong to checks.  If the session is open afterwards, as many goals were popped as pushed.
A check that gets a verdict has asserted its goal. -/
theorem goals_balanced {versions : Versions} {find : String → Option SolverProgram} {path : String}
    {timeout : Nat} {cancelled : Bool}
    (started : start versions find path timeout cancelled = .ok s) (earlier : List Request)
    (q : Request) :
    ∃ lines, ((s.run earlier).step q).sent = (s.run earlier).sent ++ lines ∧
      (∀ pre post, lines = pre ++ q.line :: post →
        AtDepth q.depth ((s.run earlier).sent ++ pre)) ∧
      (∀ line ∈ lines, line = q.line ∨ q.depth = 1 ∧ line ∈ sessionLines) ∧
      (((s.run earlier).step q).closed = false → AtDepth 0 ((s.run earlier).step q).sent) ∧
      ∀ gaveUp goal v, q = .check gaveUp goal →
        ((check gaveUp goal).perform (s.run earlier)).1 = .ok v → q.line ∈ lines := by
  have settled := settled_run (settled_start started) earlier
  obtain ⟨after, lines, sent, depths, known⟩ := settled.sends (sends_step _ q)
  refine ⟨lines, sent, depths, known, after, ?_⟩
  rintro gaveUp goal v rfl answered
  obtain ⟨fault, refused⟩ | ⟨-, followUp, -, sent'⟩ := check_cases (s.run earlier) gaveUp goal
  · rw [refused] at answered
    cases answered
  · have same := List.append_cancel_left (sent.symm.trans sent')
    rw [same]
    exact List.mem_cons_of_mem _ List.mem_cons_self

/-- A program that finds a model and refuses to show it, and then finds none and refuses to say
why. -/
def refusing : SolverProgram where
  version := "Z3 version 4.12.2 - 64 bit"
  replies := "sat\n(error \"model is not available\")\nunsat\n(error \"unsat core is not available\")\n"

/-- The session with this program. -/
def refused : External where
  version := ⟨4, 12, 2, "", ""⟩
  unread := refusing.replies.toList
  hangs := false
  sent := setup 0

/-- Two checks fail after their answer.  The second finds the stack as empty as the first, and
takes its goal back too. -/
theorem goals_balanced_refused :
    start .semantic (fun _ => some refusing) "" 0 false = .ok refused ∧
      let goal (n : UInt64) := Formula.compare .eq (Term.symbol "x") (.literal n)
      let before := refused.run [.constant "x", .check false (goal 1)]
      let after := before.step (.check false (goal 2))
      after.sent = before.sent ++ ["(push 1)", "(assert (= x 2))", "(check-sat)",
          "(get-unsat-core)", "(pop 1)"] ∧
        AtDepth 1 (before.sent ++ ["(push 1)"]) ∧ after.closed = false ∧ AtDepth 0 after.sent := by
  have started : start .semantic (fun _ => some refusing) "" 0 false = .ok refused := rfl
  refine ⟨started, ?_⟩
  intro goal before after
  obtain ⟨lines, sent, depths, -, settled, -⟩ :=
    goals_balanced started [.constant "x", .check false (goal 1)] (.check false (goal 2))
  have spoken : after.sent = before.sent ++ ["(push 1)", "(assert (= x 2))", "(check-sat)",
      "(get-unsat-core)", "(pop 1)"] := by
    decide +kernel
  have opened : after.closed = false := by decide +kernel
  have line : (Inquiry.Request.check false (goal 2)).line = "(assert (= x 2))" := by decide +kernel
  have all := List.append_cancel_left (sent.symm.trans spoken)
  exact ⟨spoken, depths ["(push 1)"] _ (all.trans (by rw [line]; rfl)), opened, settled opened⟩

end External

end ResourceSafety.Logic
