import Formula.Proofs.Dependence
import Formula.Proofs.PostorderText

/-!
# What the written forms of a tree are read as

A tree with known operators and readable names is written as a text that is read to its end, in
infix form (`Expr.scans_text`) and in postorder (`Expr.scans_postorderText`), whatever its numbers
are. The tokens are known: a minus before a number is read as an operator, the number after it as
one numeral with its point and its exponent, and an infinite number or a NaN as a name. So in a tree
of finite numbers the names that are read are the variables, from left to right
(`Expr.names_of_written`).
-/

namespace Formula

open Text Number

namespace Number

open Float.Model

/-- What a double is read as, without its minus. -/
def operand (x : Float) : Token :=
  match x.toModel.unpack with
  | .notANumber => .name "nan"
  | .infinity _ => .name "inf"
  | .zero s | .finite s _ _ _ => .number (withSign s x)

def tokens (x : Float) : List Token :=
  (if hasSign .negative x then [.operator .sub] else []) ++ [operand x]

theorem signText_eq {x : Float} {s : UnpackedFloat.Sign} (h : sign? x.toModel.unpack = some s) :
    signText s = if hasSign .negative x then ['-'] else [] := by
  unfold hasSign
  rw [h]
  cases s <;> rfl

theorem withSign_withSign (s : UnpackedFloat.Sign) (x : Float) : withSign s (withSign s x) = x := by
  cases s with
  | positive => rfl
  | negative => exact neg_neg_eq x

theorem operand_of_isFinite {x : Float} {s : UnpackedFloat.Sign} (hx : x.isFinite = true)
    (hs : sign? x.toModel.unpack = some s) : operand x = .number (withSign s x) := by
  change x.toModel.unpack.isFinite = true at hx
  unfold operand
  cases hu : x.toModel.unpack with
  | notANumber | infinity t =>
    rw [hu] at hx
    cases hx
  | zero t | finite t m e h =>
    rw [hu] at hs
    cases hs
    rfl

/-- A double is written as the lexeme of an operand, after a minus if it has one. -/
theorem exists_lexeme_canonical (x : Float) : ∃ l : Lexeme, l.Valid ∧ l.token = operand x ∧
    canonical x = (if hasSign .negative x then ['-'] else []) ++ l.text := by
  cases hu : x.toModel.unpack with
  | notANumber =>
    have hname : isName ['n', 'a', 'n'] = true := by decide
    refine ⟨.name ['n', 'a', 'n'], hname, ?_, ?_⟩
    · unfold operand
      rw [hu]
      rfl
    · unfold canonical text hasSign
      rw [hu]
      rfl
  | infinity s =>
    have hname : isName ['i', 'n', 'f'] = true := by decide
    refine ⟨.name ['i', 'n', 'f'], hname, ?_, ?_⟩
    · unfold operand
      rw [hu]
      rfl
    · rw [← signText_eq (congrArg sign? hu)]
      unfold canonical text
      rw [hu]
      rfl
  | zero s | finite s m e h =>
    have hfinite : x.isFinite = true := by
      change x.toModel.unpack.isFinite = true
      rw [hu]
      rfl
    obtain ⟨t, n, hn, -, hsign, htext, hvalue⟩ := exists_numeral_of_isFinite hfinite
    refine ⟨.numeral n, hn, ?_, ?_⟩
    · rw [operand_of_isFinite hfinite hsign, ← hvalue, withSign_withSign]
      rfl
    · rw [htext, signText_eq hsign]
      rfl

theorem scans_canonical (x : Float) : Scans (canonical x) (tokens x) := by
  obtain ⟨l, hl, htoken, htext⟩ := exists_lexeme_canonical x
  have hscans := Scans.lexeme hl (.of_ends ends_nil) scans_nil
  rw [List.append_nil, htoken] at hscans
  unfold tokens
  rw [htext]
  by_cases hx : hasSign .negative x = true
  · have hminus : Lexeme.ofSymbol? '-' = some (.operator .sub) := rfl
    rw [if_pos hx, if_pos hx]
    exact hscans.symbol hminus
  · rw [if_neg hx, if_neg hx]
    exact hscans

theorem filterMap_name?_tokens {x : Float} (hx : x.isFinite = true) :
    (tokens x).filterMap Token.name? = [] := by
  obtain ⟨s, -, -, -, hsign, -, -⟩ := exists_numeral_of_isFinite hx
  unfold tokens
  rw [operand_of_isFinite hx hsign]
  split
  · rfl
  · rfl

end Number

namespace Expr

def Item.tokens : Item → List Token
  | number x => Number.tokens x
  | name n => [.name n]
  | operator s => ((Operator.ofText? s).map .operator).toList

/-- What the infix form of a tree is read as. -/
def infixTokens : Expr → List Token
  | num x => (Item.number x).tokens
  | var n => (Item.name n).tokens
  | bin l s r =>
    .opening :: (l.infixTokens ++ ((Item.operator s).tokens ++ r.infixTokens) ++ [.closing])
  | hole => []

def postorderTokens (e : Expr) : List Token := e.postorder.flatMap Item.tokens

variable {e : Expr} {leaf : Float → Bool}

theorem Item.tokens_operator (o : Operator) : (operator o.text).tokens = [.operator o] := by
  rw [tokens, Operator.ofText?_text]
  rfl

theorem infixTokens_join (l : Expr) (o : Operator) (r : Expr) : (l.join o r).infixTokens =
    .opening :: ((l.infixTokens ++ .operator o :: r.infixTokens) ++ [.closing]) := by
  rw [infixTokens, Item.tokens_operator]
  rfl

theorem scans_name {n : String} (hn : isName n.toList = true) : Scans n.toList [.name n] := by
  have hscans := Scans.name hn ends_nil scans_nil
  rwa [List.append_nil, String.ofList_toList] at hscans

theorem scans_text (he : e.isFormula leaf = true) : Scans e.text.toList e.infixTokens := by
  induction e with
  | num x =>
    rw [text, String.toList_ofList]
    exact scans_canonical x
  | var n => exact scans_name he
  | hole => cases he
  | bin l s r ihl ihr =>
    obtain ⟨hl, ⟨o, rfl⟩, hr⟩ := isFormula_bin he
    have hsymbol := Scans.symbol (Lexeme.ofSymbol?_symbol o) (ihr hr).space
    have hgroup := ((ihl hl).append delimits_space hsymbol.space).group scans_nil
    rw [toList_text_bin, infixTokens_join, o.toList_text]
    simpa [Lexeme.token] using hgroup

theorem scans_of_mem_postorder (he : e.isFormula leaf = true) :
    ∀ i ∈ e.postorder, Scans i.text.toList i.tokens := by
  induction e with
  | num x =>
    rw [postorder, List.forall_mem_singleton, Item.text, String.toList_ofList]
    exact scans_canonical x
  | var n =>
    rw [postorder, List.forall_mem_singleton]
    exact scans_name he
  | hole => cases he
  | bin l s r ihl ihr =>
    obtain ⟨hl, ⟨o, rfl⟩, hr⟩ := isFormula_bin he
    have hsymbol := Scans.symbol (Lexeme.ofSymbol?_symbol o) scans_nil
    rw [postorder, List.forall_mem_append, List.forall_mem_append, List.forall_mem_singleton,
      Item.text, o.toList_text, Item.tokens_operator]
    exact ⟨⟨ihl hl, ihr hr⟩, hsymbol⟩

theorem scans_intercalate {is : List Item} (his : ∀ i ∈ is, Scans i.text.toList i.tokens) :
    Scans ([' '].intercalate (is.map fun i => i.text.toList)) (is.flatMap Item.tokens) := by
  induction is with
  | nil => exact scans_nil
  | cons i is ih =>
    obtain ⟨hi, his⟩ := List.forall_mem_cons.mp his
    cases is with
    | nil => simpa [List.intercalate_singleton] using hi
    | cons j js =>
      have hscans := hi.append delimits_space (ih his).space
      simpa [List.intercalate_cons_cons] using hscans

theorem scans_postorderText (he : e.isFormula leaf = true) :
    Scans e.postorderText.toList e.postorderTokens := by
  have hscans := scans_intercalate (scans_of_mem_postorder he)
  unfold postorderText
  rw [String.toList_intercalate, List.map_map]
  exact hscans

theorem filterMap_name?_infixTokens (he : e.isFormula Float.isFinite = true) :
    e.infixTokens.filterMap Token.name? = e.names := by
  induction e with
  | num x => exact filterMap_name?_tokens he
  | var n => rfl
  | hole => cases he
  | bin l s r ihl ihr =>
    obtain ⟨hl, ⟨o, rfl⟩, hr⟩ := isFormula_bin he
    rw [infixTokens_join, names, ← ihl hl, ← ihr hr]
    simp [List.filterMap_cons, Token.name?]

theorem filterMap_name?_postorderTokens (he : e.isFormula Float.isFinite = true) :
    e.postorderTokens.filterMap Token.name? = e.names := by
  unfold postorderTokens
  induction e with
  | num x =>
    rw [postorder, List.flatMap_singleton]
    exact filterMap_name?_tokens he
  | var n => rfl
  | hole => cases he
  | bin l s r ihl ihr =>
    obtain ⟨hl, ⟨o, rfl⟩, hr⟩ := isFormula_bin he
    rw [postorder, names, ← ihl hl, ← ihr hr]
    simp [Item.tokens_operator, List.filterMap_cons, Token.name?]

end Expr

theorem mem_filterMap_name? {ts : List Token} {n : String} :
    n ∈ ts.filterMap Token.name? ↔ .name n ∈ ts := by
  rw [List.mem_filterMap]
  constructor
  · rintro ⟨t, ht, hn⟩
    cases t with
    | name m =>
      cases hn
      exact ht
    | number x | operator o | opening | closing => cases hn
  · intro hn
    exact ⟨.name n, hn, rfl⟩

namespace Expr

/-- In both written forms of a tree of finite numbers the names that are read are the variables of
the tree, from left to right and each as often as it occurs. -/
theorem names_of_written {e : Expr} (he : e.isFormula Float.isFinite = true) :
    ∃ s t ns, e.render = .ok s ∧ e.renderPostorder = .ok t ∧ e.variableNames = .ok ns ∧
      ∀ w ∈ [s, t], (read w).stray = none ∧ (read w).tokens.filterMap Token.name? = e.names ∧
        ∀ n, n ∈ ns ↔ .name n ∈ (read w).tokens := by
  have hcomplete := isComplete_of_isFormula he
  have hread {w : String} {ts : List Token} (hscans : Scans w.toList ts)
      (hnames : ts.filterMap Token.name? = e.names) : (read w).stray = none ∧
        (read w).tokens.filterMap Token.name? = e.names ∧
          ∀ n, n ∈ sortedDistinct e.names ↔ .name n ∈ (read w).tokens := by
    obtain ⟨hstray, htokens⟩ := scans_iff_read.mp hscans
    rw [htokens]
    refine ⟨hstray, hnames, fun n => ?_⟩
    rw [mem_sortedDistinct, ← hnames, mem_filterMap_name?]
  refine ⟨e.text, e.postorderText, _, render_of_isComplete hcomplete,
    renderPostorder_of_isComplete hcomplete, variableNames_of_isComplete hcomplete, ?_⟩
  rw [List.forall_mem_cons, List.forall_mem_singleton]
  exact ⟨hread (scans_text he) (filterMap_name?_infixTokens he),
    hread (scans_postorderText he) (filterMap_name?_postorderTokens he)⟩

theorem names_of_written_exponents :
    let e : Expr :=
      ((var "e5").join .mul (num 1e-05)).join .sub ((num (-2.5e300)).join .div (var "inf"))
    e.isFormula Float.isFinite = true ∧
    e.render = .ok "((e5 * 1e-05) - (-2.5e+300 / inf))" ∧
    e.renderPostorder = .ok "e5 1e-05 * -2.5e+300 inf / -" ∧
    (read "((e5 * 1e-05) - (-2.5e+300 / inf))").tokens.filterMap Token.name? = ["e5", "inf"] ∧
    (read "e5 1e-05 * -2.5e+300 inf / -").tokens.filterMap Token.name? = ["e5", "inf"] := by
  intro e
  have he : e.isFormula Float.isFinite = true := by decide +kernel
  have hinfix : e.render.toOption = some "((e5 * 1e-05) - (-2.5e+300 / inf))" := by decide +kernel
  have hpostorder : e.renderPostorder.toOption = some "e5 1e-05 * -2.5e+300 inf / -" := by
    decide +kernel
  obtain ⟨s, t, ns, hs, ht, -, hread⟩ := names_of_written he
  rw [hs] at hinfix
  rw [ht] at hpostorder
  obtain rfl := Option.some.inj hinfix
  obtain rfl := Option.some.inj hpostorder
  rw [List.forall_mem_cons, List.forall_mem_singleton] at hread
  exact ⟨he, hs, ht, hread.1.2.1, hread.2.2.1⟩

end Expr

end Formula
