import RandomArt.NumberGrammar

/-!
# Call expressions

The part of the host language's expressions that is made of names, decimal literals, a minus sign,
arrays and calls: the tokens of a text, and a parser of tokens. The tokens of an expression parse
as the expression.
-/

namespace RandomArt.CallExpression

inductive Token where
  | name (text : List Char)
  | number (text : List Char)
  | openParen
  | closeParen
  | openBracket
  | closeBracket
  | comma
  | minus
  deriving DecidableEq

inductive Expr where
  | name (text : List Char)
  | number (text : List Char)
  | neg (e : Expr)
  | array (elements : List Expr)
  | call (function : List Char) (args : List Expr)

open Token

section Parser

mutual

/-- The expression at the start of the tokens and the tokens after it. -/
def parseExpr : ℕ → List Token → Option (Expr × List Token)
  | 0, _ => none
  | _ + 1, [] => none
  | fuel + 1, t :: ts =>
    match t with
    | .number text => some (.number text, ts)
    | .minus => (parseExpr fuel ts).map fun (e, rest) => (.neg e, rest)
    | .openBracket => (parseArgs fuel closeBracket ts).map fun (es, rest) => (.array es, rest)
    | .name text =>
      match ts with
      | .openParen :: ts' =>
        (parseArgs fuel closeParen ts').map fun (args, rest) => (.call text args, rest)
      | _ => some (.name text, ts)
    | _ => none

/-- Expressions between commas, up to the closing token. A comma may stand in front of it. -/
def parseArgs : ℕ → Token → List Token → Option (List Expr × List Token)
  | 0, _, _ => none
  | _ + 1, _, [] => none
  | fuel + 1, close, t :: ts =>
    if t = close then some ([], ts)
    else
      match parseExpr fuel (t :: ts) with
      | some (e, t' :: rest) =>
        if t' = close then some ([e], rest)
        else if t' = comma then
          (parseArgs fuel close rest).map fun (es, rest) => (e :: es, rest)
        else none
      | _ => none

end

def parse (ts : List Token) : Option Expr :=
  match parseExpr ts.length ts with
  | some (e, []) => some e
  | _ => none

mutual

def Expr.tokens : Expr → List Token
  | .name text => [.name text]
  | .number text => [.number text]
  | .neg e => minus :: e.tokens
  | .array es => openBracket :: argTokens closeBracket es
  | .call f args => .name f :: openParen :: argTokens closeParen args

def argTokens (close : Token) : List Expr → List Token
  | [] => [close]
  | [e] => e.tokens ++ [close]
  | e :: e' :: es => e.tokens ++ comma :: argTokens close (e' :: es)

end

theorem Expr.exists_tokens_eq (e : Expr) : ∃ t ts, e.tokens = t :: ts ∧
    t ≠ closeParen ∧ t ≠ closeBracket := by
  cases e <;> simp [Expr.tokens]

mutual

/-- The tokens of an expression parse as the expression, unless an argument list follows. -/
theorem parseExpr_tokens (e : Expr) (fuel : ℕ) (rest : List Token) (hfuel : e.tokens.length ≤ fuel)
    (hrest : rest.head? ≠ some openParen) : parseExpr fuel (e.tokens ++ rest) = some (e, rest) := by
  cases e with
  | name text =>
    obtain ⟨fuel, rfl⟩ : ∃ n, fuel = n + 1 := ⟨fuel - 1, by simp [Expr.tokens] at hfuel; omega⟩
    cases rest with
    | nil => simp [Expr.tokens, parseExpr]
    | cons t ts =>
      have ht : t ≠ openParen := fun h => hrest (by rw [h]; rfl)
      rw [Expr.tokens, List.singleton_append, parseExpr]
      cases t <;> simp_all
  | number text =>
    obtain ⟨fuel, rfl⟩ : ∃ n, fuel = n + 1 := ⟨fuel - 1, by simp [Expr.tokens] at hfuel; omega⟩
    simp [Expr.tokens, parseExpr]
  | neg e =>
    rw [Expr.tokens, List.length_cons] at hfuel
    obtain ⟨fuel, rfl⟩ : ∃ n, fuel = n + 1 := ⟨fuel - 1, by omega⟩
    rw [Expr.tokens, List.cons_append, parseExpr]
    simp only [parseExpr_tokens e fuel rest (by omega) hrest, Option.map_some]
  | array es =>
    rw [Expr.tokens, List.length_cons] at hfuel
    obtain ⟨fuel, rfl⟩ : ∃ n, fuel = n + 1 := ⟨fuel - 1, by omega⟩
    rw [Expr.tokens, List.cons_append, parseExpr]
    simp only [parseArgs_tokens es fuel closeBracket rest (.inr rfl) (by omega), Option.map_some]
  | call f args =>
    rw [Expr.tokens, List.length_cons, List.length_cons] at hfuel
    obtain ⟨fuel, rfl⟩ : ∃ n, fuel = n + 1 := ⟨fuel - 1, by omega⟩
    rw [Expr.tokens, List.cons_append, List.cons_append, parseExpr]
    simp only [parseArgs_tokens args fuel closeParen rest (.inl rfl) (by omega), Option.map_some]

theorem parseArgs_tokens (es : List Expr) (fuel : ℕ) (close : Token) (rest : List Token)
    (hclose : close = closeParen ∨ close = closeBracket)
    (hfuel : (argTokens close es).length ≤ fuel) :
    parseArgs fuel close (argTokens close es ++ rest) = some (es, rest) := by
  cases es with
  | nil =>
    rw [argTokens, List.length_singleton] at hfuel
    obtain ⟨fuel, rfl⟩ : ∃ n, fuel = n + 1 := ⟨fuel - 1, by omega⟩
    simp [argTokens, parseArgs]
  | cons e es =>
    obtain ⟨t, ts, htokens, hparen, hbracket⟩ := e.exists_tokens_eq
    have hopen : t ≠ close := by
      rcases hclose with rfl | rfl
      · exact hparen
      · exact hbracket
    cases es with
    | nil =>
      rw [argTokens, List.length_append, List.length_singleton] at hfuel
      obtain ⟨fuel, rfl⟩ : ∃ n, fuel = n + 1 := ⟨fuel - 1, by omega⟩
      have he := parseExpr_tokens e fuel (close :: rest) (by omega)
        (by rcases hclose with rfl | rfl <;> simp)
      rw [argTokens, List.append_assoc, List.singleton_append]
      rw [htokens, List.cons_append] at he ⊢
      rw [parseArgs, if_neg hopen]
      simp only [he, if_true]
    | cons e' es =>
      rw [argTokens, List.length_append, List.length_cons] at hfuel
      obtain ⟨fuel, rfl⟩ : ∃ n, fuel = n + 1 := ⟨fuel - 1, by omega⟩
      have he := parseExpr_tokens e fuel (comma :: (argTokens close (e' :: es) ++ rest)) (by omega)
        (by simp)
      have hes := parseArgs_tokens (e' :: es) fuel close rest hclose (by omega)
      have hcomma : comma ≠ close := by rcases hclose with rfl | rfl <;> decide
      rw [argTokens, List.append_assoc, List.cons_append]
      rw [htokens, List.cons_append] at he ⊢
      rw [parseArgs, if_neg hopen]
      simp only [he, if_neg hcomma, if_true, hes, Option.map_some]

end

theorem parse_tokens (e : Expr) : parse e.tokens = some e := by
  have h := parseExpr_tokens e e.tokens.length [] le_rfl (by simp)
  rw [List.append_nil] at h
  rw [parse, h]

end Parser

section Lexer

open JsNumber

/-- Characters that names and numbers are made of. -/
def isWordChar (c : Char) : Bool := c.isAlphanum || c = '_' || c = '$' || c = '.'

def isName (word : List Char) : Bool :=
  word.head?.any (fun c => c.isAlpha || c = '_' || c = '$') && word.all (· ≠ '.')

instance (part : List Char) : Decidable (IsCanonical part) :=
  decidable_of_iff
    (part ≠ [] ∧ part.all Char.isDigit = true ∧ (part.head? = some '0' → part = ['0']))
    (by rw [IsCanonical, List.all_eq_true])

/-- Decimal literals without an exponent. They have no zeros in front. -/
def isDecimal (word : List Char) : Bool :=
  decide (IsCanonical (word.takeWhile Char.isDigit)) &&
    match word.dropWhile Char.isDigit with
    | [] => true
    | '.' :: digits => digits.all Char.isDigit
    | _ => false

/-- The token of a word, if there is a word. -/
def ofWord (word : List Char) : Option (List Token) :=
  if word = [] then some []
  else if isName word then some [.name word]
  else if isDecimal word then some [.number word]
  else none

def punctuator (c : Char) : Option Token :=
  match c with
  | '(' => openParen
  | ')' => closeParen
  | '[' => openBracket
  | ']' => closeBracket
  | ',' => comma
  | '-' => minus
  | _ => none

/-- The tokens of a text that follows on a word. Two minus signs would be another operator. -/
def lexAfter : List Char → List Char → Option (List Token)
  | word, [] => ofWord word
  | word, c :: cs =>
    if isWordChar c then lexAfter (word ++ [c]) cs
    else do
      let front ← ofWord word
      if c = ' ' then
        let ts ← lexAfter [] cs
        pure (front ++ ts)
      else if c = '-' ∧ cs.head? = some '-' then none
      else
        let t ← punctuator c
        let ts ← lexAfter [] cs
        pure (front ++ t :: ts)

def lex (text : List Char) : Option (List Token) := lexAfter [] text

/-- A text that a word ends at. -/
def Boundary (text : List Char) : Prop := ∀ c ∈ text.head?, isWordChar c = false

/-- Wherever the text stands in front of a boundary it is lexed as the given tokens. -/
def Lexes (text : List Char) (ts : List Token) : Prop :=
  ∀ rest ts', Boundary rest → lex rest = some ts' → lex (text ++ rest) = some (ts ++ ts')

theorem lexAfter_append {word text rest : List Char} (h : ∀ c ∈ text, isWordChar c) :
    lexAfter word (text ++ rest) = lexAfter (word ++ text) rest := by
  induction text generalizing word with
  | nil => simp
  | cons c cs ih =>
    rw [List.cons_append, lexAfter, if_pos (h c List.mem_cons_self),
      ih fun d hd => h d (List.mem_cons_of_mem c hd)]
    simp

theorem lexAfter_of_boundary {word rest : List Char} (h : Boundary rest) :
    lexAfter word rest = (ofWord word).bind fun front => (lex rest).map (front ++ ·) := by
  cases rest with
  | nil => simp [lexAfter, lex, ofWord]
  | cons c cs =>
    have hc : isWordChar c = false := h c rfl
    rw [lex, lexAfter, lexAfter, hc]
    rcases ofWord word with _ | front
    · rfl
    · have hnil : ofWord [] = some [] := rfl
      simp only [hnil, Option.bind_eq_bind, Option.bind_some, List.nil_append, Bool.false_eq_true,
        if_false]
      split_ifs with hblank hminus
      · cases lexAfter [] cs <;> rfl
      · rfl
      · rcases punctuator c with _ | t
        · rfl
        · cases lexAfter [] cs <;> rfl

theorem Lexes.word {word : List Char} {ts : List Token} (hword : word.all isWordChar)
    (h : ofWord word = some ts) : Lexes word ts := by
  intro rest ts' hrest hlex
  rw [lex, lexAfter_append (List.all_eq_true.mp hword), List.nil_append,
    lexAfter_of_boundary hrest, h, hlex]
  rfl

/-- A punctuator, which need not stand in front of a boundary. -/
theorem lex_punctuator {c : Char} {t : Token} {rest : List Char} {ts : List Token}
    (hc : punctuator c = some t) (hminus : c ≠ '-') (h : lex rest = some ts) :
    lex (c :: rest) = some (t :: ts) := by
  have hchar : isWordChar c = false ∧ c ≠ ' ' := by
    unfold punctuator at hc
    split at hc <;> first | decide | cases hc
  rw [lex] at h
  rw [lex, lexAfter, if_neg (by simp [hchar.1])]
  simp [ofWord, hchar.2, hminus, hc, h]

theorem lex_minus {rest : List Char} {ts : List Token} (hminus : rest.head? ≠ some '-')
    (h : lex rest = some ts) : lex ('-' :: rest) = some (minus :: ts) := by
  rw [lex] at h
  rw [lex, lexAfter, if_neg (by decide)]
  simp [ofWord, hminus, h, punctuator]

theorem lex_blank {rest : List Char} {ts : List Token} (h : lex rest = some ts) :
    lex (' ' :: rest) = some ts := by
  rw [lex] at h
  rw [lex, lexAfter, if_neg (by decide)]
  simp [ofWord, h]

end Lexer

section Text

/-- The text of a call: its arguments with a comma and a blank between them. -/
def callText (function : List Char) (args : List (List Char)) : List Char :=
  function ++ '(' :: ([',', ' '].intercalate args ++ [')'])

theorem boundary_cons {c : Char} {text : List Char} (h : isWordChar c = false) :
    Boundary (c :: text) := by
  rintro d ⟨⟩
  exact h

theorem lex_args {args : List (List Char × Expr)} (hargs : ∀ a ∈ args, Lexes a.1 a.2.tokens)
    {rest : List Char} {ts : List Token} (hrest : lex rest = some ts) :
    lex ([',', ' '].intercalate (args.map Prod.fst) ++ ')' :: rest) =
      some (argTokens closeParen (args.map Prod.snd) ++ ts) := by
  have hclose : lex (')' :: rest) = some (closeParen :: ts) := lex_punctuator rfl (by decide) hrest
  induction args with
  | nil => simpa [argTokens] using hclose
  | cons a args ih =>
    have ha := hargs a List.mem_cons_self
    cases args with
    | nil =>
      have := ha _ _ (boundary_cons (by decide)) hclose
      simpa [argTokens] using this
    | cons b args =>
      have hargs' := ih fun x hx => hargs x (List.mem_cons_of_mem a hx)
      have := ha _ _ (boundary_cons (by decide))
        (lex_punctuator (c := ',') rfl (by decide) (lex_blank hargs'))
      simpa [argTokens, List.intercalate_cons_cons] using this

theorem Lexes.call {function : List Char} (hword : function.all isWordChar)
    (hname : ofWord function = some [.name function]) (args : List (List Char × Expr))
    (hargs : ∀ a ∈ args, Lexes a.1 a.2.tokens) :
    Lexes (callText function (args.map Prod.fst))
      (Expr.call function (args.map Prod.snd)).tokens := by
  intro rest ts _ hrest
  have hopen := lex_punctuator (c := '(') rfl (by decide) (lex_args hargs hrest)
  have := Lexes.word hword hname _ _ (boundary_cons (by decide)) hopen
  simpa [callText, Expr.tokens] using this

end Text

end RandomArt.CallExpression
