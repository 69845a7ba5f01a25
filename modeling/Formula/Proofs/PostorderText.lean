import Formula.Proofs.NormalForm

/-!
# A tree is rebuilt from its text in postorder

A text in postorder has no parentheses and needs none. Cut at its spaces, it is a list of pieces
that are worked off from left to right on a stack of trees: the symbol of an operator reduces the
two trees on top, a number or a name is pushed (`takePiece?`). Whatever is on the stack before, the
tree that was written is on top of it at the end (`rebuild?_renderPostorder`). A minus before a
number is never taken for the operator, since no space stands between them.
-/

namespace Formula

open Text Number

def beginsNumber : List Char → Bool
  | '-' :: c :: _ => c.isDigit
  | c :: _ => c.isDigit
  | [] => false

/-- What a piece of a text in postorder does to a stack of trees, from the top down. -/
def takePiece? (es : List Expr) (cs : List Char) : Option (List Expr) :=
  match Operator.ofText? (String.ofList cs) with
  | some o => (o.reduce es).toOption
  | none =>
    if beginsNumber cs then (read? cs).map (.num · :: es) else some (.var (String.ofList cs) :: es)

def rebuild? (es : List Expr) (s : String) : Option (List Expr) :=
  (s.toList.splitOn ' ').foldlM takePiece? es

theorem Operator.toList_text (o : Operator) : o.text.toList = [o.symbol] := by
  simp [text]

theorem Operator.eq_symbol_of_ofText? {cs : List Char} {o : Operator}
    (h : ofText? (String.ofList cs) = some o) : cs = [o.symbol] := by
  rw [← o.toList_text, text_of_ofText? h, String.toList_ofList]

section Piece

variable {cs : List Char} (es : List Expr)

theorem takePiece?_text (o : Operator) (l r : Expr) :
    takePiece? (r :: l :: es) o.text.toList = some (l.join o r :: es) := by
  unfold takePiece?
  rw [String.ofList_toList, Operator.ofText?_text]
  rfl

theorem takePiece?_of_beginsNumber (h : beginsNumber cs = true) :
    takePiece? es cs = (read? cs).map (.num · :: es) := by
  unfold takePiece?
  cases ho : Operator.ofText? (String.ofList cs) with
  | none => exact if_pos h
  | some o =>
    rw [Operator.eq_symbol_of_ofText? ho] at h
    cases o <;> cases h

theorem beginsNumber_cons {c : Char} (hc : c ≠ '-') (cs : List Char) :
    beginsNumber (c :: cs) = c.isDigit := by
  cases cs <;> simp [beginsNumber, hc]

theorem not_beginsNumber_of_isName (h : isName cs = true) : beginsNumber cs = false := by
  cases cs with
  | nil => rfl
  | cons c cs =>
    have hstart := (Bool.and_eq_true_iff.mp h).1
    have hminus : c ≠ '-' := by
      rintro rfl
      exact absurd hstart (by decide)
    rw [beginsNumber_cons hminus]
    exact eq_false_of_ne_true (not_isDigit_of_startsName hstart)

theorem takePiece?_of_isName (h : isName cs = true) :
    takePiece? es cs = some (.var (String.ofList cs) :: es) := by
  unfold takePiece?
  cases ho : Operator.ofText? (String.ofList cs) with
  | none =>
    dsimp only
    rw [not_beginsNumber_of_isName h]
    rfl
  | some o =>
    rw [Operator.eq_symbol_of_ofText? ho] at h
    exact absurd h (by cases o <;> decide)

end Piece

theorem beginsNumber_canonical {x : Float} (hx : x.isFinite = true) :
    beginsNumber (canonical x) = true := by
  obtain ⟨s, n, hn, hhead, -, htext, -⟩ := exists_numeral_of_isFinite hx
  obtain ⟨c, cs, hcs, -⟩ := n.exists_head_text hn
  have hdigit : c.isDigit := hhead c (hcs ▸ rfl)
  rw [htext, hcs]
  cases s with
  | negative => exact hdigit
  | positive =>
    have hminus : c ≠ '-' := by
      rintro rfl
      exact absurd hdigit (by decide)
    exact (beginsNumber_cons hminus cs).trans hdigit

theorem takePiece?_canonical {x : Float} (hx : x.isFinite = true) (es : List Expr) :
    takePiece? es (canonical x) = some (.num x :: es) := by
  rw [takePiece?_of_beginsNumber es (beginsNumber_canonical hx), read?_canonical hx]
  rfl

namespace Expr

variable {e : Expr}

theorem renderPostorder_of_isComplete (h : e.isComplete = true) :
    e.renderPostorder = .ok e.postorderText := by
  unfold renderPostorder
  rw [clone_of_isComplete h]
  rfl

def pieces (e : Expr) : List (List Char) := e.postorder.map (·.text.toList)

theorem pieces_num (x : Float) : (num x).pieces = [Number.canonical x] := by
  simp [pieces, postorder, Item.text]

theorem pieces_bin (l : Expr) (s : String) (r : Expr) :
    (bin l s r).pieces = l.pieces ++ r.pieces ++ [s.toList] := by
  simp [pieces, postorder, Item.text]

/-- The pieces of a tree put the tree on top of any stack. -/
theorem foldlM_pieces (he : e.isFormula Float.isFinite = true) (es : List Expr) :
    e.pieces.foldlM takePiece? es = some (e :: es) := by
  induction e generalizing es with
  | num x =>
    rw [pieces_num]
    simpa using takePiece?_canonical he es
  | var n =>
    have hpiece := takePiece?_of_isName es he
    rw [String.ofList_toList] at hpiece
    simpa [pieces, postorder, Item.text] using hpiece
  | hole => cases he
  | bin l s r ihl ihr =>
    obtain ⟨hl, ⟨o, rfl⟩, hr⟩ := isFormula_bin he
    have hleft := ihl hl es
    have hright := ihr hr (l :: es)
    simp [pieces_bin, List.foldlM_append, hleft, hright, takePiece?_text]

theorem not_mem_pieces (he : e.isFormula Float.isFinite = true) :
    ∀ cs ∈ e.pieces, ' ' ∉ cs := by
  have hspace {cs : List Char} (h : ∀ c ∈ cs, isOperandChar c = true) : ' ' ∉ cs :=
    fun hmem => absurd (h ' ' hmem) (by decide)
  induction e with
  | num x =>
    rw [pieces_num, List.forall_mem_singleton]
    exact hspace (isOperandChar_of_mem_canonical he)
  | var n =>
    intro cs hcs
    obtain rfl : cs = n.toList := by simpa [pieces, postorder, Item.text] using hcs
    exact hspace (isOperandChar_of_isName he)
  | hole => cases he
  | bin l s r ihl ihr =>
    obtain ⟨hl, ⟨o, rfl⟩, hr⟩ := isFormula_bin he
    rw [pieces_bin, List.forall_mem_append, List.forall_mem_append, List.forall_mem_singleton,
      o.toList_text]
    exact ⟨⟨ihl hl, ihr hr⟩, by cases o <;> decide⟩

theorem postorder_ne_nil (he : e.isFormula Float.isFinite = true) : e.postorder ≠ [] := by
  cases e with
  | num x | var n => exact List.cons_ne_nil _ _
  | bin l s r => exact List.append_ne_nil_of_right_ne_nil _ (List.cons_ne_nil _ _)
  | hole => cases he

/-- A text in postorder is cut into its pieces at the spaces. -/
theorem splitOn_postorderText (he : e.isFormula Float.isFinite = true) :
    e.postorderText.toList.splitOn ' ' = e.pieces := by
  have hne : e.pieces ≠ [] := fun hnil => postorder_ne_nil he (List.map_eq_nil_iff.mp hnil)
  unfold postorderText
  rw [String.toList_intercalate, List.map_map]
  exact List.splitOn_intercalate ' ' (not_mem_pieces he) hne

end Expr

/-- The text of a tree in postorder rebuilds the tree on top of any stack, and never fails. -/
theorem rebuild?_renderPostorder {e : Expr} (he : e.isFormula Float.isFinite = true)
    (es : List Expr) : ∃ s, e.renderPostorder = .ok s ∧ rebuild? es s = some (e :: es) := by
  refine ⟨_, Expr.renderPostorder_of_isComplete (Expr.isComplete_of_isFormula he), ?_⟩
  unfold rebuild?
  rw [Expr.splitOn_postorderText he, Expr.foldlM_pieces he]

theorem rebuild?_renderPostorder_signs :
    let e : Expr := ((Expr.num (-0.0)).join .sub (.num (-5e-324))).join .pow (.var "π2")
    e.isFormula Float.isFinite = true ∧
    e.renderPostorder = .ok "-0.0 -5e-324 - π2 ^" ∧
    rebuild? [.var "x"] "-0.0 -5e-324 - π2 ^" = some [e, .var "x"] := by
  intro e
  have he : e.isFormula Float.isFinite = true := by decide +kernel
  have htext : e.renderPostorder.toOption = some "-0.0 -5e-324 - π2 ^" := by decide +kernel
  obtain ⟨s, hrender, hrebuild⟩ := rebuild?_renderPostorder he [.var "x"]
  rw [hrender] at htext
  obtain rfl := Option.some.inj htext
  exact ⟨he, hrender, hrebuild⟩

end Formula
