import Formula.Proofs.Arrangement
import Formula.Proofs.RoundTrip
import Formula.Proofs.Sign

/-!
# The rendering of a parsed text is a normal form

A text is parsed as a tree of known operators, names and numbers without sign
(`isFormula_of_parse`). One kind of these trees is not read back: a literal may be so large that its
double is infinite, and an infinite number is written like a name. The tree that is read instead,
`Expr.reread`, is written as the same text, so rendering a second time changes nothing.
-/

namespace Formula

open Text

theorem Phrase.parse_of_scans {c : Category} {s : String} (p : Phrase c)
    (h : Scans s.toList p.tokens) : parse s = .ok p.tree := by
  obtain ⟨hstray, htokens⟩ := scans_iff_read.mp h
  exact parse_eq_ok.mpr (p.tree_reading hstray htokens.symm)

namespace Expr

/-- The tree that is read from the text of a tree: an infinite number is read as a name. -/
def reread : Expr → Expr
  | num x => if x.isInf then var "inf" else num x
  | var n => var n
  | bin l s r => bin l.reread s r.reread
  | hole => hole

variable {e : Expr}

theorem render_of_isComplete (h : e.isComplete = true) : e.render = .ok e.text := by
  unfold render
  rw [clone_of_isComplete h]
  rfl

theorem parse_text (h : e.isReadable = true) : parse e.text = .ok e := by
  obtain ⟨p, rfl, hscans⟩ := exists_phrase h
  apply p.parse_of_scans
  simpa using hscans [] [] ends_nil scans_nil

section Reread

open Number

theorem text_reread (h : e.isFormula (hasSign .positive) = true) : e.reread.text = e.text := by
  induction e with
  | num x =>
    unfold reread
    by_cases hinf : x.isInf = true
    · rw [if_pos hinf, text, text, canonical_of_isInf h hinf]
    · rw [if_neg hinf]
  | var n | hole => rfl
  | bin l s r ihl ihr =>
    obtain ⟨hl, -, hr⟩ := isFormula_bin h
    rw [reread, text, text, ihl hl, ihr hr]

theorem isReadable_reread (h : e.isFormula (hasSign .positive) = true) :
    e.reread.isReadable = true := by
  unfold isReadable
  induction e with
  | num x =>
    unfold reread
    by_cases hinf : x.isInf = true
    · rw [if_pos hinf]
      exact (by decide : isName ['i', 'n', 'f'] = true)
    · rw [if_neg hinf]
      exact isUnsigned_iff.mpr ⟨h, eq_false_of_ne_true hinf⟩
  | var n => exact h
  | hole => cases h
  | bin l s r ihl ihr =>
    obtain ⟨hl, ⟨o, rfl⟩, hr⟩ := isFormula_bin h
    rw [reread, isFormula, ihl hl, ihr hr, Operator.ofText?_text]
    rfl

theorem reread_eq_self (h : ∀ x, .number x ∈ e.leaves → x.isInf = false) : e.reread = e := by
  induction e with
  | num x =>
    unfold reread
    rw [h x (List.mem_singleton.mpr rfl)]
    rfl
  | var n | hole => rfl
  | bin l s r ihl ihr =>
    have hl := ihl fun x hx => h x (List.mem_append_left _ hx)
    have hr := ihr fun x hx => h x (List.mem_append_right _ hx)
    rw [reread, hl, hr]

theorem isInf_of_same_reread (h : e.reread.same e = true) :
    ∀ x, .number x ∈ e.leaves → x.isInf = false := by
  induction e with
  | num y =>
    intro x hx
    cases List.mem_singleton.mp hx
    refine eq_false_of_ne_true fun hinf => ?_
    unfold reread at h
    rw [if_pos hinf] at h
    cases h
  | var n | hole =>
    intro x hx
    simp [leaves] at hx
  | bin l s r ihl ihr =>
    simp only [reread, same, Bool.and_eq_true] at h
    intro x hx
    rcases List.mem_append.mp hx with hx | hx
    · exact ihl h.1.1 x hx
    · exact ihr h.2 x hx

/-- What the rendering of a tree without signs is parsed as. -/
theorem parse_text_eq_reread (h : e.isFormula (hasSign .positive) = true) :
    parse e.text = .ok e.reread := by
  rw [← text_reread h]
  exact parse_text (isReadable_reread h)

end Reread

end Expr

theorem isFormula_of_parse {s : String} {e : Expr} (h : parse s = .ok e) :
    e.isFormula (Number.hasSign .positive) = true := by
  refine Reading.tree_induction (P := (·.isFormula (Number.hasSign .positive) = true))
    (parse_eq_ok.mp h) ?_ ?_
  · intro t ht a ha
    obtain ⟨p, hp, rfl⟩ := List.mem_map.mp ht
    have hvalid := valid_of_mem_pieces hp
    cases hl : p.lexeme with
    | numeral n =>
      rw [hl] at ha
      cases ha
      exact n.hasSign_value
    | name cs =>
      rw [hl] at ha hvalid
      cases ha
      rw [Expr.isFormula, String.toList_ofList]
      exact hvalid
    | operator o | opening | closing =>
      rw [hl] at ha
      cases ha
  · intro l o r hl hr
    rw [Expr.isFormula, hl, hr, Operator.ofText?_text]
    rfl

/-- No literal is so large that its double is infinite. -/
def Reading.IsFinite (r : Reading) : Prop := ∀ x, .number x ∈ r.tokens → x.isInf = false

theorem isFinite_iff_leaves {s : String} {e : Expr} (h : parse s = .ok e) :
    (read s).IsFinite ↔ ∀ x, .number x ∈ e.leaves → x.isInf = false := by
  have hmem (x : Float) : .number x ∈ e.leaves ↔ .number x ∈ (read s).tokens := by
    rw [Reading.leaves_tree (parse_eq_ok.mp h), List.mem_filterMap]
    constructor
    · rintro ⟨t, ht, hleaf⟩
      cases t with
      | number y =>
        cases hleaf
        exact ht
      | name n | operator o | opening | closing => cases hleaf
    · intro hx
      exact ⟨.number x, hx, rfl⟩
  simp only [hmem, Reading.IsFinite]

/-- The rendering of a parsed text is parsed as the same tree, except that a literal without a
finite double comes back as a name. -/
theorem parse_render_parse {s : String} {e : Expr} (h : parse s = .ok e) :
    ∃ t, e.render = .ok t ∧ parse t = .ok e.reread ∧
      ((read s).IsFinite ↔ e.reread = e) ∧ ((read s).IsFinite ↔ (e.reread == e) = true) := by
  have he := isFormula_of_parse h
  have hself : e.reread = e → (e.reread == e) = true := by
    intro heq
    have hread := Expr.isReadable_reread he
    rw [heq] at hread ⊢
    exact Expr.same_self_of_isFormula (fun _ => Number.beq_self_of_isUnsigned) hread
  have hsame : (e.reread == e) = true → (read s).IsFinite := fun hsame =>
    (isFinite_iff_leaves h).mpr (Expr.isInf_of_same_reread hsame)
  have heq : (read s).IsFinite → e.reread = e := fun hfinite =>
    Expr.reread_eq_self ((isFinite_iff_leaves h).mp hfinite)
  exact ⟨e.text, Expr.render_of_isComplete (Expr.isComplete_of_isFormula he),
    Expr.parse_text_eq_reread he, ⟨heq, hsame ∘ hself⟩, ⟨hself ∘ heq, hsame⟩⟩

theorem parse_render_parse_spellings :
    parse "(.5E1 + x1) 007. ^" = .ok (((Expr.num 5).join .add (.var "x1")).join .pow (.num 7)) ∧
    parse "((5 + x1) ^ 7)" = .ok (((Expr.num 5).join .add (.var "x1")).join .pow (.num 7)) := by
  let e : Expr := ((Expr.num 5).join .add (.var "x1")).join .pow (.num 7)
  have h : parse "(.5E1 + x1) 007. ^" = .ok e := parse_eq_ok_of_toOption (by decide +kernel)
  have htext : e.render.toOption = some "((5 + x1) ^ 7)" := by decide +kernel
  have hreread : e.reread = e := by decide +kernel
  obtain ⟨t, hrender, hparse, -, -⟩ := parse_render_parse h
  rw [hrender] at htext
  obtain rfl := Option.some.inj htext
  rw [hreread] at hparse
  exact ⟨h, hparse⟩

theorem parse_render_overflow :
    parse "1e400" = .ok (.num 1e400) ∧ (Expr.num 1e400).render = .ok "inf" ∧
    parse "inf" = .ok (.var "inf") ∧
    ¬ ∃ t e, (Expr.num 1e400).render = .ok t ∧ parse t = .ok e ∧ (e == .num 1e400) = true := by
  have hinf : Number.canonical 1e400 = ['i', 'n', 'f'] := by decide +kernel
  have hrender : (Expr.num 1e400).render = .ok "inf" := by
    rw [Expr.render_of_isComplete rfl, Expr.text, hinf]
  have hparse : parse "inf" = .ok (.var "inf") := parse_eq_ok_of_toOption (by decide +kernel)
  refine ⟨parse_eq_ok_of_toOption (by decide +kernel), hrender, hparse, ?_⟩
  rintro ⟨t, e, ht, he, hsame⟩
  rw [hrender] at ht
  cases ht
  rw [hparse] at he
  cases he
  cases hsame

/-- What the parser returns is a formula without signs, and its rendering is a normal form: it is
accepted, and rendered as itself. -/
theorem render_parse_render {s : String} {e : Expr} (h : parse s = .ok e) :
    e.isFormula (Number.hasSign .positive) = true ∧
    ∃ t e', e.render = .ok t ∧ parse t = .ok e' ∧ e'.render = .ok t := by
  have he := isFormula_of_parse h
  have hcomplete := Expr.isComplete_of_isFormula (Expr.isReadable_reread he)
  refine ⟨he, e.text, e.reread, Expr.render_of_isComplete (Expr.isComplete_of_isFormula he),
    Expr.parse_text_eq_reread he, ?_⟩
  rw [Expr.render_of_isComplete hcomplete, Expr.text_reread he]

theorem render_parse_render_overflow :
    parse "1e400 x /" = .ok ((Expr.num 1e400).join .div (.var "x")) ∧
    ∃ e, parse "(inf / x)" = .ok e ∧ e.render = .ok "(inf / x)" := by
  let e : Expr := (Expr.num 1e400).join .div (.var "x")
  have h : parse "1e400 x /" = .ok e := parse_eq_ok_of_toOption (by decide +kernel)
  have htext : e.render.toOption = some "(inf / x)" := by decide +kernel
  obtain ⟨-, t, e', hrender, hparse, hagain⟩ := render_parse_render h
  rw [hrender] at htext
  obtain rfl := Option.some.inj htext
  exact ⟨h, e', hparse, hagain⟩

end Formula
