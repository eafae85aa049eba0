import ResourceSafety.Logic.SExpr
import ResourceSafety.Proofs.Source.Compact

/-!
# Replies read back

A solver prints its replies one after the other, each on lines of its own.  Three readers have to
agree on them: the one that cuts replies off the stream, the one that cuts a reply into tokens, and
the one that builds expressions from tokens.  They do for expressions whose atoms are words or
quoted texts (`SExpr.Plain`), whatever the quoted texts hold.

The first reader looks at parentheses only to know how deep it is.  In an open list nothing that it
reads ends the reply (`Response.Partial.Inside`), so a nested expression is taken up as it stands.
A list is cut off at its last parenthesis and an atom at the end of its line.  The line end that is
left of a list does not matter, for blanks before a reply are passed over.

The second reader needs to know where a word ends.  What follows one in a printed expression is a
space, a closing parenthesis or nothing, and there every word ends (`SExpr.EndsWord`).

So the replies that were printed are the ones that are read, and each of them reads as the expression
it was printed from (`Response.reads_transcript`).
-/

namespace ResourceSafety

namespace Text

/-- A text that begins and ends with a solid character has no blanks to lose. -/
theorem stripWhere_of_ends {p : Char → Bool} {first last : Char} (hf : p first = false)
    (hl : p last = false) (cs : List Char) :
    stripWhere p (first :: (cs ++ [last])) = first :: (cs ++ [last]) := by
  have front : (first :: (cs ++ [last])).dropWhile p = first :: (cs ++ [last]) :=
    List.dropWhile_cons_of_neg (ne_true_of_eq_false hf)
  have back : (first :: (cs ++ [last])).reverse = last :: (first :: cs).reverse := by simp
  rw [stripWhere, front, back, List.dropWhile_cons_of_neg (ne_true_of_eq_false hl), ← back,
    List.reverse_reverse]

end Text

namespace Logic

open Text (isBlank)

namespace SExpr

/-! ## Plain expressions -/

/-- A character of a word: it divides no tokens and opens none. -/
structure IsWordChar (c : Char) : Prop where
  solid : isBlank c = false
  opening : c ≠ '('
  closing : c ≠ ')'
  quote : c ≠ '"'

instance (c : Char) : Decidable (IsWordChar c) :=
  decidable_of_iff (isBlank c = false ∧ c ≠ '(' ∧ c ≠ ')' ∧ c ≠ '"')
    ⟨fun ⟨solid, opening, closing, quote⟩ => ⟨solid, opening, closing, quote⟩,
      fun h => ⟨h.solid, h.opening, h.closing, h.quote⟩⟩

/-- An expression whose atoms are words or texts between quotes. -/
inductive Plain : SExpr → Prop
  | word {text : String} (nonempty : text ≠ "") (chars : ∀ c ∈ text.toList, IsWordChar c) :
      Plain (atom text)
  | quoted {inner : String} (unquoted : '"' ∉ inner.toList) : Plain (atom ("\"" ++ inner ++ "\""))
  | list {items : List SExpr} (plain : ∀ e ∈ items, Plain e) : Plain (list items)

/-- The characters of an expression. -/
def chars (e : SExpr) : List Char := e.render.toList

/-- The characters of expressions with spaces between them. -/
def itemChars (items : List SExpr) : List Char := (renderItems items).toList

theorem chars_list (items : List SExpr) :
    (list items).chars = '(' :: (itemChars items ++ [')']) := by
  simp [chars, itemChars, render]

theorem chars_quoted (inner : String) :
    (atom ("\"" ++ inner ++ "\"")).chars = '"' :: (inner.toList ++ ['"']) := by
  simp [chars, render]

theorem itemChars_singleton (e : SExpr) : itemChars [e] = e.chars := rfl

theorem itemChars_cons (e f : SExpr) (items : List SExpr) :
    itemChars (e :: f :: items) = e.chars ++ ' ' :: itemChars (f :: items) := by
  simp [chars, itemChars, renderItems]

variable {e : SExpr} {items : List SExpr} {cs gathered rest : List Char}

/-! ## Tokens -/

mutual

/-- The tokens of an expression. -/
def lexemes : SExpr → List String
  | atom text => [text]
  | list items => "(" :: (itemLexemes items ++ [")"])

/-- The tokens of expressions one after the other. -/
def itemLexemes : List SExpr → List String
  | [] => []
  | e :: es => lexemes e ++ itemLexemes es

end

theorem tokensFrom_space : tokensFrom [] false (' ' :: cs) = tokensFrom [] false cs := rfl

theorem tokensFrom_open : tokensFrom [] false ('(' :: cs) = "(" :: tokensFrom [] false cs := rfl

theorem tokensFrom_close : tokensFrom [] false (')' :: cs) = ")" :: tokensFrom [] false cs := rfl

theorem tokensFrom_quote : tokensFrom [] false ('"' :: cs) = tokensFrom ['"'] true cs := rfl

theorem tokensFrom_wordChar {c : Char} (word : IsWordChar c) :
    tokensFrom gathered false (c :: cs) = tokensFrom (c :: gathered) false cs := by
  have apart : isSeparator c = false := by
    rw [← Bool.not_eq_true]
    intro separator
    have solid := word.solid
    simp only [isSeparator, Bool.or_eq_true, beq_iff_eq] at separator
    obtain ((rfl | rfl) | rfl) | rfl := separator <;> cases solid
  simp [tokensFrom, word.quote, word.opening, word.closing, apart]

theorem tokensFrom_word (word : ∀ c ∈ cs, IsWordChar c) (gathered : List Char) :
    tokensFrom gathered false (cs ++ rest) = tokensFrom (cs.reverse ++ gathered) false rest := by
  induction cs generalizing gathered with
  | nil => rfl
  | cons c cs ih =>
    obtain ⟨here, others⟩ := List.forall_mem_cons.mp word
    rw [List.cons_append, tokensFrom_wordChar here, ih others, List.reverse_cons,
      List.append_assoc, List.singleton_append]

theorem tokensFrom_quoted (unquoted : '"' ∉ cs) (gathered : List Char) :
    tokensFrom gathered true (cs ++ '"' :: rest) =
      String.ofList (gathered.reverse ++ (cs ++ ['"'])) :: tokensFrom [] false rest := by
  induction cs generalizing gathered with
  | nil => simp [tokensFrom, flush]
  | cons c cs ih =>
    obtain ⟨here, others⟩ := not_or.mp (mt List.mem_cons.mpr unquoted)
    rw [List.cons_append, tokensFrom, if_pos rfl, if_neg (mt beq_iff_eq.mp (Ne.symm here)),
      ih others]
    simp

/-- What follows ends every word. -/
def EndsWord (rest : List Char) : Prop := ∀ c ∈ rest.head?, c = ' ' ∨ c = ')'

theorem endsWord_nil : EndsWord [] := fun _ mem => by cases mem

theorem endsWord_space (rest : List Char) : EndsWord (' ' :: rest) := by
  rintro c ⟨⟩
  exact .inl rfl

theorem endsWord_close (rest : List Char) : EndsWord (')' :: rest) := by
  rintro c ⟨⟩
  exact .inr rfl

theorem EndsWord.tokensFrom (ends : EndsWord rest) :
    tokensFrom gathered false rest = flush gathered ++ tokensFrom [] false rest := by
  cases rest with
  | nil => simp [SExpr.tokensFrom, flush]
  | cons c rest =>
    obtain rfl | rfl := ends c rfl
    · simp [SExpr.tokensFrom, flush, isSeparator]
    · simp [SExpr.tokensFrom, flush]

/-- The expression gives its tokens wherever it is printed. -/
def Lexes (e : SExpr) : Prop :=
  ∀ rest, EndsWord rest →
    tokensFrom [] false (e.chars ++ rest) = e.lexemes ++ tokensFrom [] false rest

theorem tokensFrom_itemChars (lex : ∀ e ∈ items, Lexes e) :
    tokensFrom [] false (itemChars items ++ ')' :: rest) =
      itemLexemes items ++ tokensFrom [] false (')' :: rest) := by
  induction items with
  | nil => rfl
  | cons e items ih =>
    obtain ⟨here, others⟩ := List.forall_mem_cons.mp lex
    cases items with
    | nil =>
      rw [itemChars_singleton, here _ (endsWord_close rest)]
      simp only [itemLexemes, List.append_nil]
    | cons f items =>
      rw [itemChars_cons, List.append_assoc, List.cons_append, here _ (endsWord_space _),
        tokensFrom_space, ih others, ← List.append_assoc]
      rfl

theorem Plain.lexes (plain : e.Plain) : e.Lexes := by
  induction plain with
  | @word text nonempty word =>
    intro rest ends
    have some : text.toList ≠ [] := mt String.toList_eq_nil_iff.mp nonempty
    rw [chars, render, tokensFrom_word word, ends.tokensFrom, List.append_nil, flush,
      if_neg (by simpa using some), List.reverse_reverse, String.ofList_toList, lexemes]
  | @quoted inner unquoted =>
    intro rest _
    have text : String.ofList (['"'].reverse ++ (inner.toList ++ ['"'])) = "\"" ++ inner ++ "\"" := by
      simp [← String.toList_inj]
    rw [chars_quoted, List.cons_append, List.append_assoc, List.singleton_append,
      tokensFrom_quote, tokensFrom_quoted unquoted, text]
    rfl
  | @list items _ lex =>
    intro rest _
    rw [chars_list, List.cons_append, List.append_assoc, List.singleton_append, tokensFrom_open,
      tokensFrom_itemChars lex, tokensFrom_close]
    simp [lexemes]

/-! ## Expressions from tokens -/

/-- The reader goes on after a whole expression: outside every list it is done. -/
def deliver (stack : List (List SExpr)) (e : SExpr) (rest : List String) :
    Except SExprError (SExpr × List String) :=
  match stack with
  | [] => .ok (e, rest)
  | gathered :: stack => readTokens ((e :: gathered) :: stack) rest

variable {stack : List (List SExpr)} {tokens : List String}

theorem readTokens_open : readTokens stack ("(" :: tokens) = readTokens ([] :: stack) tokens := by
  cases stack <;> rfl

theorem readTokens_close (gathered : List SExpr) :
    readTokens (gathered :: stack) (")" :: tokens) =
      deliver stack (list gathered.reverse) tokens := by
  cases stack <;> rfl

theorem readTokens_atom {text : String} (opening : text ≠ "(") (closing : text ≠ ")") :
    readTokens stack (text :: tokens) = deliver stack (atom text) tokens := by
  cases stack with
  | nil =>
    rw [readTokens]
    · rfl
    · exact opening
    · exact closing
  | cons gathered stack =>
    rw [readTokens]
    · rfl
    · exact opening
    · exact fun _ => closing
    · exact fun _ _ _ => closing

/-- An atom of a plain expression is no parenthesis. -/
theorem ne_of_word {text : String} {c : Char} (chars : ∀ d ∈ text.toList, IsWordChar d)
    (other : ¬IsWordChar c) : text ≠ String.singleton c := by
  rintro rfl
  exact other (chars c (by simp))

theorem ne_of_quoted (inner : String) (c : Char) : "\"" ++ inner ++ "\"" ≠ String.singleton c := by
  intro same
  have chars := congrArg String.toList same
  simp at chars

/-- The reader takes up the tokens of an expression as this expression. -/
def Parses (e : SExpr) : Prop :=
  ∀ stack rest, readTokens stack (e.lexemes ++ rest) = deliver stack e rest

theorem readTokens_itemLexemes (parse : ∀ e ∈ items, Parses e) (gathered : List SExpr) :
    readTokens (gathered :: stack) (itemLexemes items ++ tokens) =
      readTokens ((items.reverse ++ gathered) :: stack) tokens := by
  induction items generalizing gathered with
  | nil => rfl
  | cons e items ih =>
    obtain ⟨here, others⟩ := List.forall_mem_cons.mp parse
    rw [itemLexemes, List.append_assoc, here, deliver, ih others, List.reverse_cons,
      List.append_assoc, List.singleton_append]

theorem Plain.parses (plain : e.Plain) : e.Parses := by
  induction plain with
  | word _ chars =>
    intro stack rest
    exact readTokens_atom (ne_of_word chars fun open' => open'.opening rfl)
      (ne_of_word chars fun close => close.closing rfl)
  | @quoted inner _ =>
    intro stack rest
    exact readTokens_atom (ne_of_quoted inner '(') (ne_of_quoted inner ')')
  | @list items _ parse =>
    intro stack rest
    rw [lexemes, List.cons_append, List.append_assoc, readTokens_open,
      readTokens_itemLexemes parse, List.append_nil, List.singleton_append, readTokens_close,
      List.reverse_reverse]

theorem Plain.ofString_render (plain : e.Plain) : ofString e.render = .ok e := by
  have tokens : SExpr.tokens e.render = e.lexemes := by
    have lexed := plain.lexes [] endsWord_nil
    rwa [List.append_nil, show SExpr.tokensFrom [] false [] = [] from rfl, List.append_nil] at lexed
  have parsed := plain.parses [] []
  rw [List.append_nil] at parsed
  rw [ofString, tokens, parsed]
  rfl

/-! ## Ends of expressions -/

theorem Plain.stripWhere_chars (plain : e.Plain) : Text.stripWhere isBlank e.chars = e.chars := by
  cases plain with
  | word _ chars => exact Text.stripWhere_of_forall fun c mem => (chars c mem).solid
  | @quoted inner _ =>
    rw [chars_quoted]
    exact Text.stripWhere_of_ends rfl rfl inner.toList
  | @list items _ =>
    rw [chars_list]
    exact Text.stripWhere_of_ends rfl rfl (itemChars items)

theorem Plain.chars_ne_nil (plain : e.Plain) : e.chars ≠ [] := by
  cases plain with
  | word nonempty _ => exact mt String.toList_eq_nil_iff.mp nonempty
  | @quoted inner _ =>
    rw [chars_quoted]
    exact List.cons_ne_nil _ _
  | @list items _ =>
    rw [chars_list]
    exact List.cons_ne_nil _ _

end SExpr

/-! ## Replies in a stream -/

namespace Response

open SExpr

variable {p : Partial} {e : SExpr} {cs rest : List Char}

namespace Partial

/-- The reply with more characters taken up. -/
def extend (p : Partial) (cs : List Char) : Partial :=
  { p with gathered := cs.reverse ++ p.gathered }

/-- The reply between quotes, or outside them. -/
def withQuoted (p : Partial) (quoted : Bool) : Partial := { p with quoted }

/-- The reply with a list opened. -/
def opened (p : Partial) : Partial :=
  { p with gathered := '(' :: p.gathered, depth := p.depth + 1, started := true }

/-- The reply with a list closed. -/
def closed (p : Partial) : Partial := { p with gathered := ')' :: p.gathered, depth := p.depth - 1 }

theorem extend_extend (p : Partial) (cs ds : List Char) :
    (p.extend cs).extend ds = p.extend (cs ++ ds) := by
  simp [extend]

/-- Outside quotes, and not at the end of a list. -/
structure Waits (p : Partial) : Prop where
  quoted : p.quoted = false
  depth : p.started = true → p.depth ≠ 0

theorem Waits.extend (waits : p.Waits) (cs : List Char) : (p.extend cs).Waits :=
  ⟨waits.quoted, waits.depth⟩

/-- In an open list. -/
structure Inside (p : Partial) : Prop where
  quoted : p.quoted = false
  started : p.started = true
  depth : 0 < p.depth

theorem Inside.waits (inside : p.Inside) : p.Waits :=
  ⟨inside.quoted, fun _ => Int.ne_of_gt inside.depth⟩

theorem Inside.extend (inside : p.Inside) (cs : List Char) : (p.extend cs).Inside :=
  ⟨inside.quoted, inside.started, inside.depth⟩

theorem Inside.opened (quoted : p.quoted = false) (depth : 0 ≤ p.depth) : p.opened.Inside :=
  ⟨quoted, rfl, Int.lt_add_one_of_le depth⟩

theorem push_of_quoted (quoted : p.quoted = true) (c : Char) :
    p.push c = (p.extend [c]).withQuoted (c != '"') := by
  simp [push, extend, withQuoted, quoted]

theorem push_quote (quoted : p.quoted = false) : p.push '"' = (p.extend ['"']).withQuoted true := by
  simp [push, extend, withQuoted, quoted]

theorem push_open (quoted : p.quoted = false) : p.push '(' = p.opened := by
  simp [push, opened, quoted]

theorem push_close (quoted : p.quoted = false) : p.push ')' = p.closed := by
  simp [push, closed, quoted]

theorem push_space (quoted : p.quoted = false) : p.push ' ' = p.extend [' '] := by
  simp [push, extend, quoted]

theorem push_wordChar {c : Char} (quoted : p.quoted = false) (word : IsWordChar c) :
    p.push c = p.extend [c] := by
  simp [push, extend, quoted, word.quote, word.opening, word.closing]

end Partial

open Partial

/-- A character is taken up, unless it ends the line of an atom or closes the outermost list. -/
theorem nextFrom_cons {c : Char} (line : c = '\n' → p.quoted = true ∨ p.depth ≠ 0)
    (goes : (p.push c).started = true → (p.push c).depth ≠ 0) :
    nextFrom p (c :: cs) = nextFrom (p.push c) cs := by
  have on : ¬(c == '\n' && !p.quoted && p.depth == 0) = true := by
    simp only [Bool.and_eq_true, beq_iff_eq, Bool.not_eq_true', not_and, and_imp]
    intro newline unquoted
    obtain quoted | deep := line newline
    · rw [unquoted] at quoted
      cases quoted
    · exact deep
  have further : ¬((p.push c).started && (p.push c).depth == 0) = true := by
    simpa only [Bool.and_eq_true, beq_iff_eq, not_and] using goes
  rw [nextFrom, if_neg on]
  exact if_neg further

theorem nextFrom_word (waits : p.Waits) (word : ∀ c ∈ cs, IsWordChar c) :
    nextFrom p (cs ++ rest) = nextFrom (p.extend cs) rest := by
  induction cs generalizing p with
  | nil => rfl
  | cons c cs ih =>
    obtain ⟨here, others⟩ := List.forall_mem_cons.mp word
    have push := push_wordChar waits.quoted here
    rw [List.cons_append, nextFrom_cons, push, ih (waits.extend [c]) others, extend_extend]
    · rfl
    · rintro rfl
      cases here.solid
    · rw [push]
      exact waits.depth

theorem nextFrom_toQuote (quoted : p.quoted = true) (depth : p.started = true → p.depth ≠ 0)
    (unquoted : '"' ∉ cs) :
    nextFrom p (cs ++ '"' :: rest) =
      nextFrom ((p.extend (cs ++ ['"'])).withQuoted false) rest := by
  induction cs generalizing p with
  | nil =>
    rw [List.nil_append, nextFrom_cons, push_of_quoted quoted]
    · rfl
    · exact fun _ => .inl quoted
    · rw [push_of_quoted quoted]
      exact depth
  | cons c cs ih =>
    obtain ⟨here, others⟩ := not_or.mp (mt List.mem_cons.mpr unquoted)
    have push : p.push c = p.extend [c] := by
      rw [push_of_quoted quoted, bne_iff_ne.mpr (Ne.symm here), ← quoted]
      rfl
    rw [List.cons_append, nextFrom_cons, push, ih (p := p.extend [c]) quoted depth others,
      extend_extend]
    · rfl
    · exact fun _ => .inl quoted
    · rw [push]
      exact depth

theorem nextFrom_quoted (waits : p.Waits) (unquoted : '"' ∉ cs) :
    nextFrom p ('"' :: (cs ++ ['"']) ++ rest) =
      nextFrom (p.extend ('"' :: (cs ++ ['"']))) rest := by
  have between : (((p.extend ['"']).withQuoted true).extend (cs ++ ['"'])).withQuoted false =
      p.extend ('"' :: (cs ++ ['"'])) := by
    simp [extend, withQuoted, waits.quoted]
  rw [List.cons_append, nextFrom_cons, push_quote waits.quoted, List.append_assoc,
    List.singleton_append, nextFrom_toQuote (p := (p.extend ['"']).withQuoted true) rfl waits.depth
      unquoted, between]
  · exact fun newline => by cases newline
  · rw [push_quote waits.quoted]
    exact waits.depth

/-! ## Lists -/

/-- The expression is taken up as it stands in an open list. -/
def Taken (e : SExpr) : Prop :=
  ∀ p : Partial, p.Inside → ∀ rest, nextFrom p (e.chars ++ rest) = nextFrom (p.extend e.chars) rest

theorem nextFrom_space (inside : p.Inside) :
    nextFrom p (' ' :: rest) = nextFrom (p.extend [' ']) rest := by
  rw [nextFrom_cons, push_space inside.quoted]
  · exact fun newline => by cases newline
  · rw [push_space inside.quoted]
    exact inside.waits.depth

theorem nextFrom_itemChars {items : List SExpr} (take : ∀ e ∈ items, Taken e) (inside : p.Inside) :
    nextFrom p (itemChars items ++ rest) = nextFrom (p.extend (itemChars items)) rest := by
  induction items generalizing p with
  | nil => rfl
  | cons e items ih =>
    obtain ⟨here, others⟩ := List.forall_mem_cons.mp take
    cases items with
    | nil => exact here p inside rest
    | cons f items =>
      rw [itemChars_cons, List.append_assoc, List.cons_append, here p inside,
        nextFrom_space (inside.extend _), ih others ((inside.extend _).extend _), extend_extend,
        extend_extend]
      rfl

/-- The items of a list are taken up, and what is left is to close it. -/
theorem nextFrom_list {items : List SExpr} (take : ∀ e ∈ items, Taken e) (quoted : p.quoted = false)
    (depth : 0 ≤ p.depth) :
    nextFrom p ((list items).chars ++ rest) =
      nextFrom (p.opened.extend (itemChars items)) (')' :: rest) := by
  have inside := Inside.opened quoted depth
  rw [chars_list, List.cons_append, List.append_assoc, List.singleton_append, nextFrom_cons,
    push_open quoted, nextFrom_itemChars take inside]
  · exact fun newline => by cases newline
  · rw [push_open quoted]
    exact inside.waits.depth

/-- A list that was opened and closed again. -/
theorem closed_opened (p : Partial) (items : List SExpr) :
    (p.opened.extend (itemChars items)).closed =
      { p.extend (list items).chars with started := true } := by
  simp [closed, opened, extend, chars_list]

theorem taken (plain : e.Plain) : Taken e := by
  induction plain with
  | word _ chars => exact fun p inside rest => nextFrom_word inside.waits chars
  | @quoted inner unquoted =>
    intro p inside rest
    rw [chars_quoted]
    exact nextFrom_quoted inside.waits unquoted
  | @list items _ take =>
    intro p inside rest
    have unquoted : (p.opened.extend (itemChars items)).quoted = false := inside.quoted
    have closed : (p.opened.extend (itemChars items)).closed = p.extend (list items).chars := by
      rw [closed_opened, extend, ← inside.started]
    rw [nextFrom_list take inside.quoted (Int.le_of_lt inside.depth), nextFrom_cons,
      push_close unquoted, closed]
    · exact fun newline => by cases newline
    · rw [push_close unquoted, closed]
      exact inside.waits.depth

/-! ## Streams -/

/-- The text of a reply that has the characters of an expression. -/
theorem text_of_plain (plain : e.Plain) (gathered : p.gathered = e.chars.reverse) :
    p.text = e.render := by
  rw [Partial.text, gathered, List.reverse_reverse, plain.stripWhere_chars, chars,
    String.ofList_toList]

/-- Outside lists and quotes a line end ends the reply, if there is one. -/
theorem nextFrom_newline (quoted : p.quoted = false) (depth : p.depth = 0) :
    nextFrom p ('\n' :: rest) =
      if p.text != "" then some (p.text, rest) else nextFrom { p with gathered := [] } rest := by
  rw [nextFrom, quoted, depth]
  rfl

/-- The parenthesis that closes the outermost list ends the reply. -/
theorem nextFrom_close (quoted : p.quoted = false) (started : p.started = true)
    (depth : p.depth = 1) : nextFrom p (')' :: rest) = some (p.closed.text, rest) := by
  have ended : (p.closed.started && p.closed.depth == 0) = true := by
    simp [closed, started, depth]
  rw [nextFrom, push_close quoted]
  exact if_pos ended

/-- An atom is cut off at the end of its line. -/
theorem next?_atom {text : String} (plain : (SExpr.atom text).Plain) (rest : List Char) :
    next? ((SExpr.atom text).chars ++ '\n' :: rest) = some (text, rest) := by
  have waits : ({} : Partial).Waits := ⟨rfl, fun started => by cases started⟩
  have read : nextFrom {} ((SExpr.atom text).chars ++ '\n' :: rest) =
      nextFrom (({} : Partial).extend (SExpr.atom text).chars) ('\n' :: rest) := by
    cases plain with
    | word _ chars => exact nextFrom_word waits chars
    | @quoted inner unquoted =>
      rw [chars_quoted]
      exact nextFrom_quoted waits unquoted
  have whole : (({} : Partial).extend (SExpr.atom text).chars).text = text :=
    text_of_plain plain (List.append_nil _)
  have some : text ≠ "" := mt String.toList_eq_nil_iff.mpr plain.chars_ne_nil
  rw [next?, read, nextFrom_newline rfl rfl, whole, if_pos (bne_iff_ne.mpr some)]

/-- A list is cut off at its last parenthesis. -/
theorem next?_list {items : List SExpr} (plain : (list items).Plain) (rest : List Char) :
    next? ((list items).chars ++ rest) = some ((list items).render, rest) := by
  have take : ∀ e ∈ items, Taken e := by
    cases plain with | list plain =>
    exact fun e mem => taken (plain e mem)
  have whole : (({} : Partial).opened.extend (itemChars items)).closed.text = (list items).render :=
    text_of_plain plain (by rw [closed_opened]; exact List.append_nil _)
  rw [next?, nextFrom_list take rfl (Int.le_refl 0), nextFrom_close rfl rfl rfl, whole]

/-- Line ends before a reply are passed over. -/
theorem next?_newline (rest : List Char) : next? ('\n' :: rest) = next? rest := by
  have empty : ¬(({} : Partial).text != "") = true := by decide
  rw [next?, nextFrom_newline rfl rfl, if_neg empty]
  rfl

/-- Reading a stream reply by reply gives the texts and then the end of the stream. -/
inductive Reads : List Char → List String → Prop
  | done {cs : List Char} (ended : next? cs = none) : Reads cs []
  | more {cs rest : List Char} {text : String} {texts : List String}
      (next : next? cs = some (text, rest)) (others : Reads rest texts) : Reads cs (text :: texts)

theorem Reads.of_next? {cs ds : List Char} {texts : List String} (same : next? cs = next? ds)
    (reads : Reads cs texts) : Reads ds texts := by
  cases reads with
  | done ended => exact .done (same.symm.trans ended)
  | more next others => exact .more (same.symm.trans next) others

/-- Expressions printed one after the other, each with a line end after it. -/
def transcript (es : List SExpr) : List Char := es.flatMap fun e => e.chars ++ ['\n']

theorem transcript_cons (e : SExpr) (es : List SExpr) :
    transcript (e :: es) = e.chars ++ '\n' :: transcript es := by
  simp [transcript]

theorem Reads.line {es : List SExpr} {texts : List String} (plain : e.Plain)
    (reads : Reads (transcript es) texts) : Reads (transcript (e :: es)) (e.render :: texts) := by
  rw [transcript_cons]
  cases e with
  | atom text => exact .more (next?_atom plain _) reads
  | list items => exact .more (next?_list plain _) (reads.of_next? (next?_newline _).symm)

/-- Printed replies are read in their order up to the end of the stream, and each of them reads as
its expression. -/
theorem reads_transcript {es : List SExpr} (plain : ∀ e ∈ es, e.Plain) :
    Reads (transcript es) (es.map render) ∧ ∀ e ∈ es, SExpr.ofString e.render = .ok e := by
  refine ⟨?_, fun e mem => (plain e mem).ofString_render⟩
  induction es with
  | nil => exact .done rfl
  | cons e es ih =>
    obtain ⟨here, others⟩ := List.forall_mem_cons.mp plain
    exact (ih others).line here

/-- A word, a text with a line end between quotes, and lists. -/
def sample : List SExpr :=
  [.atom "sat", .atom "\"a (\n b\"", .list [], .list [.atom "a!", .atom "\"x ) y\"", .list [.atom "-"]]]

/-- Line ends and parentheses between quotes neither end a reply nor nest one. -/
theorem reads_transcript_sample :
    (∀ e ∈ sample, e.Plain) ∧
      Reads "sat\n\"a (\n b\"\n()\n(a! \"x ) y\" (-))\n".toList
        ["sat", "\"a (\n b\"", "()", "(a! \"x ) y\" (-))"] ∧
      ∀ e ∈ sample, SExpr.ofString e.render = .ok e := by
  have word {text : String} (nonempty : text ≠ "")
      (chars : (text.toList.all fun c => decide (IsWordChar c)) = true) :
      (SExpr.atom text).Plain :=
    .word nonempty fun c mem => of_decide_eq_true (List.all_eq_true.mp chars c mem)
  have nested : (SExpr.list [.atom "a!", .atom "\"x ) y\"", .list [.atom "-"]]).Plain := by
    refine .list (List.forall_mem_cons.mpr ⟨word (by decide) (by decide), ?_⟩)
    refine List.forall_mem_cons.mpr ⟨@Plain.quoted "x ) y" (by decide), ?_⟩
    refine List.forall_mem_cons.mpr ⟨.list ?_, fun _ => nofun⟩
    exact List.forall_mem_singleton.mpr (word (by decide) (by decide))
  have plain : ∀ e ∈ sample, e.Plain := by
    refine List.forall_mem_cons.mpr ⟨word (by decide) (by decide), ?_⟩
    refine List.forall_mem_cons.mpr ⟨@Plain.quoted "a (\n b" (by decide), ?_⟩
    exact List.forall_mem_cons.mpr ⟨.list fun _ => nofun, List.forall_mem_singleton.mpr nested⟩
  exact ⟨plain, reads_transcript plain⟩

end Response

end Logic

end ResourceSafety
