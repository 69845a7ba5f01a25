import Formula.Expr.Evaluate
import Formula.Proofs.Graft

/-!
# To substitute in a text is to bind a variable

`substitute` writes a text in parentheses in place of a name, wherever the name occurs in another
text as a token. The tree of the new text has one and the same tree in place of a variable. If that
tree has a value, the whole has the outcome that it has when the variable is bound to this value: it
is found leaf by leaf (`Expr.Grafted.evaluate_eq`), so what is the first to fail does not change.
-/

namespace Formula

open Formula.Expr (Grafted)

def Piece.substitute (x : String) (new : List Char) (p : Piece) : List Char :=
  if p.lexeme.token = .name x then p.blanks ++ '(' :: (new ++ [')']) else p.text

/-- A text with another one, in parentheses, in place of a name. -/
def substitute (x new s : String) : String :=
  let pieces := (read s).pieces
  String.ofList (pieces.flatMap (Piece.substitute x new.toList) ++
    s.toList.drop (pieces.flatMap Piece.text).length)

theorem substitute_eq {s : String} {tail : List Char}
    (h : (read s).pieces.flatMap Piece.text ++ tail = s.toList) (x new : String) :
    substitute x new s =
      String.ofList ((read s).pieces.flatMap (Piece.substitute x new.toList) ++ tail) := by
  simp only [substitute]
  rw [← h, List.drop_left]

theorem substitute_eq_self {s : String} {x : String} (hs : (read s).stray = none)
    (hx : .name x ∉ (read s).tokens) (new : String) : substitute x new s = s := by
  have hpieces : ∀ p ∈ (read s).pieces, p.substitute x new.toList = p.text := by
    intro p hp
    apply if_neg
    intro htoken
    exact hx (List.mem_map.mpr ⟨p, hp, htoken⟩)
  rw [read_eq] at hs
  obtain ⟨tail, -, htext⟩ := flatMap_text_readFrom hs
  rw [← read_eq] at htext
  rw [substitute_eq htext, List.flatMap_congr hpieces, htext, String.ofList_toList]

/-- Trees in place of leaves that have the same outcome give the same outcome of the whole. -/
theorem Expr.Grafted.evaluate_eq {gs : List (Expr × Expr)} {e e' : Expr} {b b' : Bindings}
    (h : Grafted gs e e') (hgs : ∀ g ∈ gs, g.2.evaluate b = g.1.evaluate b') :
    e'.evaluate b = e.evaluate b' := by
  induction h with
  | leaf ha f => exact hgs _ List.mem_cons_self
  | bin s hl hr ihl ihr =>
    obtain ⟨hgl, hgr⟩ := List.forall_mem_append.mp hgs
    rw [evaluate_bin, evaluate_bin, ihl hgl, ihr hgr]

theorem evaluate_var_bind (b : Bindings) (x : String) (v : Float) :
    (Expr.var x).evaluate (b.bind x (.float v)) = .ok v := by
  rw [Expr.evaluate_var, Bindings.lookup_bind, if_pos rfl]
  rfl

theorem evaluate_operand_bind {t : Token} {a : Expr} {x : String} (ha : t.operand? = some a)
    (ht : t ≠ .name x) (b : Bindings) (q : Quantity) :
    a.evaluate b = a.evaluate (b.bind x q) := by
  cases t with
  | number y =>
    cases ha
    rfl
  | name n =>
    cases ha
    have hn : n ≠ x := fun h => ht (h ▸ rfl)
    rw [Expr.evaluate_var, Expr.evaluate_var, Bindings.lookup_bind, if_neg hn]
  | operator o | opening | closing => cases ha

namespace Patch

def ofName (x s : String) (e : Expr) (p : Piece) : Patch :=
  ⟨p, if p.lexeme.token = .name x then some (s, e) else none⟩

variable {x s : String} {e : Expr}

theorem text_ofName (p : Piece) : (ofName x s e p).text = p.substitute x s.toList := by
  unfold ofName text Piece.substitute
  by_cases hp : p.lexeme.token = .name x
  · rw [if_pos hp, if_pos hp]
  · rw [if_neg hp, if_neg hp]

theorem valid_ofName (hs : parse s = .ok e) (p : Piece) : (ofName x s e p).Valid := by
  intro s' e' hgroup
  unfold ofName at hgroup ⊢
  by_cases hp : p.lexeme.token = .name x
  · rw [if_pos hp] at hgroup
    cases hgroup
    exact ⟨by rw [hp]; rfl, hs⟩
  · rw [if_neg hp] at hgroup
    cases hgroup

theorem evaluate_graft?_ofName {b : Bindings} {v : Float} {p : Piece} {g : Expr × Expr}
    (hv : e.evaluate b = .ok v) (hg : (ofName x s e p).graft? = some g) :
    g.2.evaluate b = g.1.evaluate (b.bind x (.float v)) := by
  obtain ⟨a, ha, rfl⟩ := Option.map_eq_some_iff.mp hg
  unfold ofName at ha ⊢
  by_cases hp : p.lexeme.token = .name x
  · rw [hp] at ha
    cases ha
    simp only [if_pos hp, Option.map_some, Option.getD_some]
    rw [hv, evaluate_var_bind]
  · simp only [if_neg hp, Option.map_none, Option.getD_none]
    exact evaluate_operand_bind ha hp b _

end Patch

/-- A text with another one substituted for a name is accepted, and has the outcome that it has
without it when the name is bound to the value of the other. -/
theorem evaluate_substitute {s s' : String} {e e' : Expr} {b : Bindings} {v : Float}
    (x : String) (hs : parse s = .ok e) (hs' : parse s' = .ok e') (hv : e'.evaluate b = .ok v) :
    ∃ e'', parse (substitute x s' s) = .ok e'' ∧
      e''.evaluate b = e.evaluate (b.bind x (.float v)) := by
  let qs := (read s).pieces.map (Patch.ofName x s' e')
  have hqs : qs.map Patch.piece = (read s).pieces := by
    rw [List.map_map]
    exact List.map_id _
  have hvalid : ∀ q ∈ qs, q.Valid := List.forall_mem_map.mpr fun p _ => Patch.valid_ofName hs' p
  obtain ⟨tail, e'', htext, hparse, hgrafted⟩ := parse_patched hs hqs hvalid
  have hnew : qs.flatMap Patch.text = (read s).pieces.flatMap (Piece.substitute x s'.toList) := by
    rw [List.flatMap_map]
    exact List.flatMap_congr fun p _ => Patch.text_ofName p
  rw [hnew, ← substitute_eq htext] at hparse
  refine ⟨e'', hparse, hgrafted.evaluate_eq fun g hg => ?_⟩
  obtain ⟨q, hq, hg⟩ := List.mem_filterMap.mp hg
  obtain ⟨p, -, rfl⟩ := List.mem_map.mp hq
  exact Patch.evaluate_graft?_ofName hv hg

theorem evaluate_substitute_postfix :
    substitute "x" "1 x -" "x y x * +" = "(1 x -) y (1 x -) * +" ∧
    ∃ e, parse "(1 x -) y (1 x -) * +" = .ok e ∧
      e.evaluate (.ofList [("x", .int 4), ("y", .int 2)]) = .ok (-9) := by
  have hs : parse "x y x * +" =
      .ok ((Expr.var "x").join .add ((Expr.var "y").join .mul (.var "x"))) :=
    parse_eq_ok_of_toOption (by decide +kernel)
  have hs' : parse "1 x -" = .ok ((Expr.num 1).join .sub (.var "x")) :=
    parse_eq_ok_of_toOption (by decide +kernel)
  have hv : ((Expr.num 1).join .sub (.var "x")).evaluate
      (.ofList [("x", .int 4), ("y", .int 2)]) = .ok (-3) := rfl
  have htext : substitute "x" "1 x -" "x y x * +" = "(1 x -) y (1 x -) * +" := by decide +kernel
  obtain ⟨e, hparse, he⟩ := evaluate_substitute "x" hs hs' hv
  rw [htext] at hparse
  exact ⟨htext, e, hparse, he⟩

end Formula
