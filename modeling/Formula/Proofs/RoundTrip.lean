import Formula.Proofs.Grouping
import Formula.Proofs.NumberText
import Formula.RoundTrip

/-!
# A rendered tree is parsed as the same tree

The text of a tree is an atom of the grammar: a number, a name or a sum in parentheses. Read from
left to right, with any text after it that neither a numeral nor a name goes on with, it gives the
tokens of a phrase whose tree is the tree that was written.
-/

namespace Formula

open Text

theorem Scans.canonical {x : Float} {rest : List Char} {ts : List Token}
    (hx : Number.isUnsigned x = true) (hends : Ends rest) (h : Scans rest ts) :
    Scans (Number.canonical x ++ rest) (.number x :: ts) := by
  obtain ⟨n, hn, htext, rfl⟩ := Number.exists_numeral_canonical hx
  rw [← htext]
  exact Scans.numeral hn hends h

namespace Expr

/-- Whether a tree has known operators, names that are read as names, and numbers that `leaf`
admits. -/
def isFormula (leaf : Float → Bool) : Expr → Bool
  | num x => leaf x
  | var n => isName n.toList
  | bin l s r => l.isFormula leaf && (Operator.ofText? s).isSome && r.isFormula leaf
  | hole => false

/-- Whether a tree is a formula with finite numbers without sign. -/
def isReadable (e : Expr) : Bool := e.isFormula Number.isUnsigned

section Shape

variable {leaf : Float → Bool} {e : Expr}

theorem isFormula_bin {l r : Expr} {s : String} (h : (bin l s r).isFormula leaf = true) :
    l.isFormula leaf = true ∧ (∃ o : Operator, o.text = s) ∧ r.isFormula leaf = true := by
  simp only [isFormula, Bool.and_eq_true] at h
  obtain ⟨o, ho⟩ := Option.isSome_iff_exists.mp h.1.2
  exact ⟨h.1.1, ⟨o, Operator.text_of_ofText? ho⟩, h.2⟩

theorem isComplete_of_isFormula (h : e.isFormula leaf = true) : e.isComplete = true := by
  induction e with
  | num x | var n => rfl
  | hole => cases h
  | bin l s r ihl ihr =>
    obtain ⟨hl, -, hr⟩ := isFormula_bin h
    rw [isComplete, ihl hl, ihr hr]
    rfl

theorem same_self_of_isFormula (hleaf : ∀ x, leaf x = true → (x == x) = true)
    (h : e.isFormula leaf = true) : e.same e = true := by
  induction e with
  | num x => exact hleaf x h
  | var n => exact beq_self_eq_true n
  | hole => cases h
  | bin l s r ihl ihr =>
    obtain ⟨hl, -, hr⟩ := isFormula_bin h
    simp [same, ihl hl, ihr hr]

end Shape

theorem toList_text_bin (l : Expr) (s : String) (r : Expr) : (bin l s r).text.toList =
    '(' :: (l.text.toList ++ ' ' :: (s.toList ++ ' ' :: r.text.toList)) ++ [')'] := by
  simp [text]

theorem exists_phrase {e : Expr} (he : e.isReadable = true) : ∃ p : Phrase .atom, p.tree = e ∧
    ∀ rest ts, Ends rest → Scans rest ts → Scans (e.text.toList ++ rest) (p.tokens ++ ts) := by
  induction e with
  | num x =>
    refine ⟨.number x, rfl, fun rest ts hends hrest => ?_⟩
    rw [text, String.toList_ofList]
    exact Scans.canonical he hends hrest
  | var n =>
    refine ⟨.name n, rfl, fun rest ts hends hrest => ?_⟩
    have hscans := Scans.name he hends hrest
    rwa [String.ofList_toList] at hscans
  | hole => cases he
  | bin l s r ihl ihr =>
    obtain ⟨hl, ⟨o, rfl⟩, hr⟩ := isFormula_bin he
    obtain ⟨p, rfl, hscansl⟩ := ihl hl
    obtain ⟨q, rfl, hscansr⟩ := ihr hr
    obtain ⟨b, hb, htree⟩ := Phrase.exists_binary_sum o p q
    refine ⟨.group b, htree, fun rest ts hends hrest => ?_⟩
    have hblank : isBlank ' ' = true := by decide
    have hspace (cs : List Char) : Ends (' ' :: cs) := ends_cons (by decide) (by decide)
    have hclose := Scans.symbol (rfl : Lexeme.ofSymbol? ')' = some .closing) hrest
    have hright := hscansr _ _ (ends_cons (by decide) (by decide)) hclose
    have hsymbol := (Scans.symbol (Lexeme.ofSymbol?_symbol o) (hright.blank hblank)).blank hblank
    have hleft := hscansl _ _ (hspace _) hsymbol
    have hopen := Scans.symbol (rfl : Lexeme.ofSymbol? '(' = some .opening) hleft
    rw [toList_text_bin]
    simpa [Phrase.tokens, hb, Operator.text, Lexeme.token] using hopen

end Expr

/-- A readable tree is rendered as a text that is parsed as the same tree, and hence rendered as the
same text again. -/
theorem parse_render (e : Expr) (he : e.isReadable = true) :
    ∃ s, e.render = .ok s ∧ parse s = .ok e ∧ e.roundTrip = .ok ⟨s, true, s⟩ := by
  have hclone := Expr.clone_of_isComplete (Expr.isComplete_of_isFormula he)
  have hrender : e.render = .ok e.text := by
    unfold Expr.render
    rw [hclone]
    rfl
  have hparse : parse e.text = .ok e := by
    obtain ⟨p, htree, hscans⟩ := Expr.exists_phrase he
    have hscan := hscans [] [] ends_nil scans_nil
    rw [List.append_nil, List.append_nil] at hscan
    obtain ⟨hstray, htokens⟩ := scans_iff_read.mp hscan
    rw [parse_eq_ok, p.tree_reading hstray htokens.symm, htree]
  have hsame : (e == e) = true :=
    Expr.same_self_of_isFormula (fun _ => Number.beq_self_of_isUnsigned) he
  refine ⟨e.text, hrender, hparse, ?_⟩
  unfold Expr.roundTrip
  rw [hrender]
  change ((parse e.text).mapError Failure.parse).bind _ = _
  rw [hparse]
  change (e.render.mapError Failure.fault).bind _ = _
  rw [hrender, hsame]
  rfl

theorem parse_render_regimes :
    (Expr.bin (.bin (.num 12) "-" (.num 0.5)) "/" (.bin (.var "x") "^" (.num 5e-324))).isReadable =
      true ∧
    parse "((12 - 0.5) / (x ^ 5e-324))" =
      .ok (.bin (.bin (.num 12) "-" (.num 0.5)) "/" (.bin (.var "x") "^" (.num 5e-324))) := by
  let e : Expr := .bin (.bin (.num 12) "-" (.num 0.5)) "/" (.bin (.var "x") "^" (.num 5e-324))
  have he : e.isReadable = true := by decide +kernel
  have htext : e.render.toOption = some "((12 - 0.5) / (x ^ 5e-324))" := by decide +kernel
  obtain ⟨s, hrender, hparse, -⟩ := parse_render e he
  rw [hrender] at htext
  obtain rfl := Option.some.inj htext
  exact ⟨he, hparse⟩

end Formula
