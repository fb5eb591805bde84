import RandomArt.CallExpression
import RandomArt.FixStr
import RandomArt.GrownTrees
import RandomArt.ReplaceAll

/-!
# Formulas in text

The text of an expression tree, with the names of its variables replaced by arrays, is the text of
one expression: its tokens parse as the expression that is expected.
-/

namespace RandomArt.Formula
open Binary64 DecimalText JsNumber CallExpression

/-- The text of a colour with constant channels. -/
def constText (c : Channels ℚ) : List Char :=
  callText "Const".toList [fixStr (finite c.r), fixStr (finite c.g), fixStr (finite c.b)]

def ExpressionTree.toString : ExpressionTree → List Char
  | varX => "posX".toList
  | varY => "posY".toList
  | varT => "frmT".toList
  | palette _ c | random c => constText c
  | bw c => callText "BW".toList [fixStr (finite c)]
  | not e => callText "Not".toList [e.toString]
  | sum e1 e2 => callText "Sum".toList [e1.toString, e2.toString]
  | mul e1 e2 => callText "Mul".toList [e1.toString, e2.toString]
  | mod e1 e2 => callText "Mod".toList [e1.toString, e2.toString]
  | tent e => callText "Tent".toList [e.toString]
  | well e => callText "Well".toList [e.toString]
  | sin phase freq e =>
    callText "Sin".toList [fixStr (finite phase), fixStr (finite freq), e.toString]
  | mix w e1 e2 => callText "Mix".toList [w.toString, e1.toString, e2.toString]
  | level treshold e e1 e2 =>
    callText "Level".toList [fixStr (finite treshold), e.toString, e1.toString, e2.toString]
  | closest tgt e1 e2 => callText "Closest".toList [tgt.toString, e1.toString, e2.toString]

/-- The formula with its variables replaced. -/
def substitute (formula : List Char) : List Char :=
  let formula := replaceAll "posX".toList "[x,x,x]".toList formula
  let formula := replaceAll "posY".toList "[y,y,y]".toList formula
  replaceAll "frmT".toList "[1,1,1]".toList formula

section Expressions

/-- The literal of a number of ten thousandths. -/
def fixedExpr (k : ℤ) : Expr :=
  let literal := Expr.number (print (k.natAbs / 10 ^ 4) ++ '.' :: lastDigits 4 (k.natAbs % 10 ^ 4))
  if k < 0 then .neg literal else literal

def constantExpr (c : ℚ) : Expr := fixedExpr (tenThousandths c)

def constExpr (c : Channels ℚ) : Expr :=
  .call "Const".toList [constantExpr c.r, constantExpr c.g, constantExpr c.b]

/-- The expression that the text of a tree stands for. -/
def ExpressionTree.expr : ExpressionTree → Expr
  | varX => .array [.name ['x'], .name ['x'], .name ['x']]
  | varY => .array [.name ['y'], .name ['y'], .name ['y']]
  | varT => .array [.number ['1'], .number ['1'], .number ['1']]
  | palette _ c | random c => constExpr c
  | bw c => .call "BW".toList [constantExpr c]
  | not e => .call "Not".toList [e.expr]
  | sum e1 e2 => .call "Sum".toList [e1.expr, e2.expr]
  | mul e1 e2 => .call "Mul".toList [e1.expr, e2.expr]
  | mod e1 e2 => .call "Mod".toList [e1.expr, e2.expr]
  | tent e => .call "Tent".toList [e.expr]
  | well e => .call "Well".toList [e.expr]
  | sin phase freq e => .call "Sin".toList [constantExpr phase, constantExpr freq, e.expr]
  | mix w e1 e2 => .call "Mix".toList [w.expr, e1.expr, e2.expr]
  | level treshold e e1 e2 =>
    .call "Level".toList [constantExpr treshold, e.expr, e1.expr, e2.expr]
  | closest tgt e1 e2 => .call "Closest".toList [tgt.expr, e1.expr, e2.expr]

/-- Every constant of the tree is at most as large as the bound. -/
def ExpressionTree.ConstantsLe (bound : ℚ) : ExpressionTree → Prop
  | varX | varY | varT => True
  | palette _ c | random c => |c.r| ≤ bound ∧ |c.g| ≤ bound ∧ |c.b| ≤ bound
  | bw c => |c| ≤ bound
  | not e | tent e | well e => e.ConstantsLe bound
  | sum e1 e2 | mul e1 e2 | mod e1 e2 => e1.ConstantsLe bound ∧ e2.ConstantsLe bound
  | sin phase freq e => |phase| ≤ bound ∧ |freq| ≤ bound ∧ e.ConstantsLe bound
  | mix e e1 e2 | closest e e1 e2 =>
    e.ConstantsLe bound ∧ e1.ConstantsLe bound ∧ e2.ConstantsLe bound
  | level treshold e e1 e2 =>
    |treshold| ≤ bound ∧ e.ConstantsLe bound ∧ e1.ConstantsLe bound ∧ e2.ConstantsLe bound

end Expressions

section Substitution

theorem substitute_append_cons {c : Char}
    (hc : c ∉ "posX".toList ++ "posY".toList ++ "frmT".toList) (front back : List Char) :
    substitute (front ++ c :: back) = substitute front ++ c :: substitute back := by
  have hX : c ∉ "posX".toList := fun h => hc (List.mem_append_left _ (List.mem_append_left _ h))
  have hY : c ∉ "posY".toList := fun h => hc (List.mem_append_left _ (List.mem_append_right _ h))
  have hT : c ∉ "frmT".toList := fun h => hc (List.mem_append_right _ h)
  simp only [substitute, replaceAll_append_cons _ hX (by decide),
    replaceAll_append_cons _ hY (by decide), replaceAll_append_cons _ hT (by decide)]

theorem substitute_of_notMem {text : List Char} (hp : 'p' ∉ text) (hf : 'f' ∉ text) :
    substitute text = text := by
  have hX : replaceAll "posX".toList "[x,x,x]".toList text = text := replaceAll_of_notMem _ hp
  have hY : replaceAll "posY".toList "[y,y,y]".toList text = text := replaceAll_of_notMem _ hp
  have hT : replaceAll "frmT".toList "[1,1,1]".toList text = text := replaceAll_of_notMem _ hf
  simp only [substitute, hX, hY, hT]

theorem substitute_intercalate (args : List (List Char)) :
    substitute ([',', ' '].intercalate args) = [',', ' '].intercalate (args.map substitute) := by
  induction args with
  | nil => decide
  | cons a args ih =>
    cases args with
    | nil => simp
    | cons b args =>
      have hcomma := substitute_append_cons (c := ',') (by decide) a
        (' ' :: [',', ' '].intercalate (b :: args))
      have hblank := substitute_append_cons (c := ' ') (by decide) []
        ([',', ' '].intercalate (b :: args))
      rw [List.nil_append] at hblank
      rw [hblank, ih] at hcomma
      simpa [List.intercalate_cons_cons, show substitute [] = [] by decide] using hcomma

theorem substitute_callText {function : List Char} (h : substitute function = function)
    (args : List (List Char)) :
    substitute (callText function args) = callText function (args.map substitute) := by
  have hclose := substitute_append_cons (c := ')') (by decide) ([',', ' '].intercalate args) []
  rw [callText, substitute_append_cons (by decide), hclose, h, substitute_intercalate]
  rfl

theorem substitute_fixedText (k : ℤ) : substitute (fixedText k) = fixedText k := by
  have hdigit {c : Char} (hc : c.isDigit = false) (hsign : c ≠ '-') (hpoint : c ≠ '.') :
      c ∉ fixedText k := by
    intro h
    rw [fixedText, List.mem_append, List.mem_append, List.mem_cons] at h
    rcases h with h | h | h | h
    · split_ifs at h
      · exact hsign (List.mem_singleton.mp h)
      · cases h
    · exact notMem_print hc _ h
    · exact hpoint h
    · rw [isDigit_of_mem_lastDigits h] at hc
      cases hc
  exact substitute_of_notMem (hdigit (by decide) (by decide) (by decide))
    (hdigit (by decide) (by decide) (by decide))

end Substitution

section Lexing

theorem lexes_fixedText (k : ℤ) : Lexes (fixedText k) (fixedExpr k).tokens := by
  obtain ⟨c, cs, hcons⟩ := List.exists_cons_of_ne_nil (print_ne_nil (k.natAbs / 10 ^ 4))
  have hc : c.isDigit := isDigit_of_mem_print (hcons ▸ List.mem_cons_self)
  obtain ⟨literal, hliteral⟩ : ∃ literal, literal =
    print (k.natAbs / 10 ^ 4) ++ '.' :: lastDigits 4 (k.natAbs % 10 ^ 4) := ⟨_, rfl⟩
  have hdigit {d : Char} (hd : d.isDigit) : isWordChar d := by
    simp [isWordChar, Char.isAlphanum, hd]
  have hword : literal.all isWordChar := by
    refine List.all_eq_true.mpr fun d hd => ?_
    rw [hliteral, List.mem_append, List.mem_cons] at hd
    rcases hd with hd | rfl | hd
    · exact hdigit (isDigit_of_mem_print hd)
    · rfl
    · exact hdigit (isDigit_of_mem_lastDigits hd)
  have hname : isName literal = false := by
    have hpoint : literal.all (· ≠ '.') = false := by
      rw [List.all_eq_false]
      exact ⟨'.', by simp [hliteral], by simp⟩
    rw [isName, hpoint, Bool.and_false]
  have hdecimal : isDecimal literal := by
    obtain ⟨htake, hdrop⟩ := takeWhile_of_forall (p := Char.isDigit)
      (fun d hd => isDigit_of_mem_print (n := k.natAbs / 10 ^ 4) hd)
      ('.' :: lastDigits 4 (k.natAbs % 10 ^ 4)) (by simp)
    rw [isDecimal, hliteral, htake, hdrop]
    simp only [isCanonical_print, decide_true, Bool.true_and, List.all_eq_true]
    exact fun d hd => isDigit_of_mem_lastDigits hd
  have hof : ofWord literal = some [.number literal] := by
    have hne : literal ≠ [] := by simp [hliteral]
    rw [ofWord, if_neg hne, hname, if_neg (by simp), if_pos hdecimal]
  rw [fixedText, fixedExpr, ← hliteral]
  split_ifs with hneg
  · intro rest ts hrest hlex
    rw [List.singleton_append, List.cons_append, Expr.tokens, Expr.tokens]
    refine lex_minus ?_ (Lexes.word hword hof rest ts hrest hlex)
    rw [hliteral, hcons]
    rintro h
    obtain rfl : c = '-' := by simpa using h
    exact absurd hc (by decide)
  · rw [List.nil_append, Expr.tokens]
    exact Lexes.word hword hof

theorem lexes_constant {c : ℚ} (h : |c| ≤ 2 ^ 34) :
    Lexes (substitute (fixStr (finite c))) (constantExpr c).tokens := by
  rw [fixStr_finite h, substitute_fixedText]
  exact lexes_fixedText _

/-- A call in the formula, with the text and the expression of each argument. -/
theorem lexes_call {function : List Char} (hname : ofWord function = some [.name function])
    (hfunction : substitute function = function) (hword : function.all isWordChar)
    (args : List (List Char × Expr)) (hargs : ∀ a ∈ args, Lexes (substitute a.1) a.2.tokens) :
    Lexes (substitute (callText function (args.map Prod.fst)))
      (Expr.call function (args.map Prod.snd)).tokens := by
  have := Lexes.call hword hname (args.map fun a => (substitute a.1, a.2))
    fun _ ha => by
      obtain ⟨b, hb, rfl⟩ := List.mem_map.mp ha
      exact hargs b hb
  rw [substitute_callText hfunction]
  simpa [Function.comp_def] using this

theorem lexes_constText {c : Channels ℚ}
    (h : |c.r| ≤ 2 ^ 34 ∧ |c.g| ≤ 2 ^ 34 ∧ |c.b| ≤ 2 ^ 34) :
    Lexes (substitute (constText c)) (constExpr c).tokens := by
  refine lexes_call (by decide) (by decide) (by decide)
      [(fixStr (finite c.r), constantExpr c.r), (fixStr (finite c.g), constantExpr c.g),
        (fixStr (finite c.b), constantExpr c.b)] ?_
  simp [lexes_constant h.1, lexes_constant h.2.1, lexes_constant h.2.2]

theorem lexes_triple {c : Char} {t : Token} (hchar : isWordChar c) (hof : ofWord [c] = some [t]) :
    Lexes ['[', c, ',', c, ',', c, ']']
      [.openBracket, t, .comma, t, .comma, t, .closeBracket] := by
  intro rest ts _ hrest
  have hword {c' : Char} {back : List Char} {ts' : List Token} (hc' : isWordChar c' = false)
      (h : lex (c' :: back) = some ts') : lex (c :: c' :: back) = some (t :: ts') :=
    Lexes.word (by simpa using hchar) hof _ _ (boundary_cons hc') h
  exact lex_punctuator rfl (by decide) (hword (by decide) (lex_punctuator rfl (by decide)
    (hword (by decide) (lex_punctuator rfl (by decide) (hword (by decide)
      (lex_punctuator rfl (by decide) hrest))))))

/-- The formula of a tree is lexed as the tokens of its expression. -/
theorem lexes_toString (t : ExpressionTree) (h : t.ConstantsLe (2 ^ 34)) :
    Lexes (substitute t.toString) t.expr.tokens := by
  induction t with
  | varX =>
    rw [ExpressionTree.toString, show substitute "posX".toList = "[x,x,x]".toList by decide]
    exact lexes_triple (c := 'x') (by decide) (by decide)
  | varY =>
    rw [ExpressionTree.toString, show substitute "posY".toList = "[y,y,y]".toList by decide]
    exact lexes_triple (c := 'y') (by decide) (by decide)
  | varT =>
    rw [ExpressionTree.toString, show substitute "frmT".toList = "[1,1,1]".toList by decide]
    exact lexes_triple (c := '1') (by decide) (by decide)
  | palette hex c => exact lexes_constText h
  | random c => exact lexes_constText h
  | bw c =>
    refine lexes_call (by decide) (by decide) (by decide)
      [(fixStr (finite c), constantExpr c)] ?_
    simpa using lexes_constant h
  | not e ih | tent e ih | well e ih =>
    refine lexes_call (by decide) (by decide) (by decide)
      [(e.toString, e.expr)] ?_
    simpa using ih h
  | sum e1 e2 ih1 ih2 | mul e1 e2 ih1 ih2 | mod e1 e2 ih1 ih2 =>
    refine lexes_call (by decide) (by decide) (by decide)
      [(e1.toString, e1.expr), (e2.toString, e2.expr)] ?_
    simp [ih1 h.1, ih2 h.2]
  | sin phase freq e ih =>
    refine lexes_call (by decide) (by decide) (by decide)
      [(fixStr (finite phase), constantExpr phase), (fixStr (finite freq), constantExpr freq),
        (e.toString, e.expr)] ?_
    simp [lexes_constant h.1, lexes_constant h.2.1, ih h.2.2]
  | mix e e1 e2 ih ih1 ih2 | closest e e1 e2 ih ih1 ih2 =>
    refine lexes_call (by decide) (by decide) (by decide)
      [(e.toString, e.expr), (e1.toString, e1.expr), (e2.toString, e2.expr)] ?_
    simp [ih h.1, ih1 h.2.1, ih2 h.2.2]
  | level treshold e e1 e2 ih ih1 ih2 =>
    refine lexes_call (by decide) (by decide) (by decide)
      [(fixStr (finite treshold), constantExpr treshold), (e.toString, e.expr),
        (e1.toString, e1.expr), (e2.toString, e2.expr)] ?_
    simp [lexes_constant h.1, ih h.2.1, ih1 h.2.2.1, ih2 h.2.2.2]

theorem lex_toString {t : ExpressionTree} (h : t.ConstantsLe (2 ^ 34)) :
    lex (substitute t.toString) = some t.expr.tokens := by
  have := lexes_toString t h [] [] (by simp [Boundary]) rfl
  simpa using this

end Lexing

end RandomArt.Formula
