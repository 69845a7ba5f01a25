import Formula.Proofs.Agenda

/-!
# The order in which a parsed text is evaluated

A tree read in postorder, leaves before the operators that join them, lists the tokens of the text
it was parsed from: the operands as they stand there, and each operator put off until its scope
ends. This holds of every text that is accepted, well formed or not. A run of the parser keeps it:
what is on the stack of operands, followed by the arrangement of what waits and what is still to be
read, stays the same (`Stacks.postorders_append_arrange`).
-/

namespace Formula

namespace Expr

def leaves : Expr → List Item
  | num x => [.number x]
  | var n => [.name n]
  | bin l _ r => l.leaves ++ r.leaves
  | hole => []

def symbols : Expr → List String
  | num _ | var _ | hole => []
  | bin l s r => s :: (l.symbols ++ r.symbols)

def Item.isLeaf : Item → Bool
  | number _ | name _ => true
  | operator _ => false

def Item.symbol? : Item → Option String
  | number _ | name _ => none
  | operator s => some s

theorem leaves_eq (e : Expr) : e.leaves = e.postorder.filter Item.isLeaf := by
  induction e with
  | num x | var n | hole => rfl
  | bin l s r ihl ihr => simp [leaves, postorder, Item.isLeaf, ihl, ihr]

theorem symbols_perm (e : Expr) : e.symbols.Perm (e.postorder.filterMap Item.symbol?) := by
  induction e with
  | num x | var n | hole => exact List.Perm.refl _
  | bin l s r ihl ihr =>
    simp only [symbols, postorder, List.filterMap_append]
    exact ((ihl.append ihr).cons s).trans (List.perm_append_singleton s _).symm

end Expr

/-- The postorders of the trees on a stack, from the bottom up. -/
def postorders (es : List Expr) : List Expr.Item := es.reverse.flatMap Expr.postorder

@[simp] theorem postorders_nil : postorders [] = [] := rfl

@[simp] theorem postorders_cons (e : Expr) (es : List Expr) :
    postorders (e :: es) = postorders es ++ e.postorder := by
  simp [postorders]

theorem postorders_reduceAll {os : List Operator} {es es' : List Expr}
    (h : reduceAll os es = .ok es') :
    postorders es' = postorders es ++ os.map (fun o => .operator o.text) := by
  induction os generalizing es with
  | nil =>
    cases h
    simp
  | cons o os ih =>
    obtain ⟨l, r, rest, rfl, hr⟩ := reduceAll_cons_eq_ok.mp h
    rw [ih hr]
    simp [Expr.postorder]

theorem postorders_operand? (t : Token) (es : List Expr) :
    postorders (t.operand?.toList ++ es) = postorders es ++ t.leaf?.toList := by
  cases t <;> simp [Token.operand?, Token.leaf?, Expr.postorder]

namespace Stacks

/-- What is on the stack, what waits and what is to be read make up the postorder of the tree. -/
theorem postorders_append_arrange {st st' : Stacks} {ts : List Token} {e : Expr}
    (ha : Ascending st.pending) (hrun : st.run? ts = some st') (hfin : st'.finish = .ok e) :
    postorders st.operands ++ arrange (agenda st.pending ts) ts = e.postorder := by
  induction ts generalizing st with
  | nil =>
    cases hrun
    obtain ⟨hkept, hred⟩ := finish_eq_ok.mp hfin
    have hpost := postorders_reduceAll hred
    rw [Pending.agenda_nil hkept, Scope.arrange_ending, ← hpost]
    simp
  | cons t ts ih =>
    obtain ⟨st₁, hstep, hrun⟩ := run?_cons_eq_some.mp hrun
    obtain ⟨es, hred, hafter, hes⟩ := step?_eq_some.mp hstep
    obtain ⟨ss, ss', hagenda, hagenda₁⟩ := Pending.exists_schedule ha hafter ts
    have hrest := ih (Pending.ascending_after? ha hafter) hrun
    rw [hes, postorders_operand?, postorders_reduceAll hred, hagenda₁] at hrest
    rw [hagenda, Scope.arrange_schedule, ← hrest]
    simp only [List.append_assoc]

end Stacks

theorem postorder_tree {r : Reading} {e : Expr} (h : r.tree = .ok e) :
    e.postorder = arrangement r.tokens := by
  obtain ⟨-, st, hrun, hfin⟩ := Reading.tree_eq_ok.mp h
  exact (Stacks.postorders_append_arrange ascending_nil hrun hfin).symm

section Contents

variable (ss : List Scope) (ts : List Token)

theorem flatMap_range_getElem? {α : Type} (f : Token → Option α) :
    ((List.range (ts.length + 1)).flatMap fun j => (ts[j]?.bind f).toList) = ts.filterMap f := by
  induction ts with
  | nil => rfl
  | cons t ts ih =>
    rw [List.length_cons, List.range_succ_eq_map, List.flatMap_cons, List.flatMap_map]
    simp only [List.getElem?_cons_zero, List.getElem?_cons_succ, Option.bind_some, ih]
    cases h : f t <;> simp [h]

theorem filter_isLeaf_arrange : (arrange ss ts).filter Expr.Item.isLeaf =
    ts.filterMap Token.leaf? := by
  have hitems (j : Nat) :
      (itemsAt ss ts j).filter Expr.Item.isLeaf = (ts[j]?.bind Token.leaf?).toList := by
    have hops : ∀ l : List Scope, (l.map fun s => Expr.Item.operator s.operator.text).filter
        Expr.Item.isLeaf = [] := by
      intro l
      simp [Expr.Item.isLeaf]
    rw [itemsAt, List.filter_append, hops, List.nil_append]
    cases ts[j]? with
    | none => rfl
    | some t => cases t <;> rfl
  rw [arrange, List.filter_flatMap, ← flatMap_range_getElem?]
  simp only [hitems]

theorem perm_flatMap_stop (m : Nat) :
    ((List.range m).flatMap fun j => (ss.filter (·.stop = j)).reverse).Perm
      (ss.filter (·.stop < m)) := by
  induction m with
  | zero => simp
  | succ m ih =>
    have hlt : (ss.filter (·.stop < m + 1)).filter (·.stop < m) = ss.filter (·.stop < m) := by
      rw [List.filter_filter]
      refine List.filter_congr fun s _ => ?_
      simp
      omega
    have hge : (ss.filter (·.stop < m + 1)).filter (fun s => !decide (s.stop < m)) =
        ss.filter (·.stop = m) := by
      rw [List.filter_filter]
      refine List.filter_congr fun s _ => ?_
      by_cases hs : s.stop = m
      · simp [hs]
      · simp [hs]
        omega
    have hsplit := List.filter_append_perm (·.stop < m) (ss.filter (·.stop < m + 1))
    rw [hlt, hge] at hsplit
    rw [List.range_succ, List.flatMap_append, List.flatMap_singleton]
    exact (ih.append (List.reverse_perm _)).trans hsplit

theorem map_text_scopes : (scopes ts).map (·.operator.text) = ts.filterMap Token.symbol? := by
  induction ts with
  | nil => rfl
  | cons t ts ih =>
    cases t with
    | operator o =>
      rw [scopes_cons_operator]
      simpa [Token.symbol?, Scope.later, Function.comp_def] using ih
    | number x | name n | opening | closing =>
      rw [scopes_cons rfl, List.filterMap_cons_none rfl, ← ih]
      simp [Scope.later, Function.comp_def]

theorem filterMap_symbol?_arrangement : ((arrangement ts).filterMap Expr.Item.symbol?).Perm
    (ts.filterMap Token.symbol?) := by
  have hitems (j : Nat) : (itemsAt (scopes ts) ts j).filterMap Expr.Item.symbol? =
      ((scopes ts).filter (·.stop = j)).reverse.map (·.operator.text) := by
    have hops : ∀ l : List Scope, (l.map fun s => Expr.Item.operator s.operator.text).filterMap
        Expr.Item.symbol? = l.map (·.operator.text) := by
      intro l
      rw [List.filterMap_map]
      exact congrFun List.filterMap_eq_map l
    rw [itemsAt, List.filterMap_append, hops]
    cases ts[j]? with
    | none => simp
    | some t => cases t <;> simp [Token.leaf?, Expr.Item.symbol?]
  have hall : (scopes ts).filter (·.stop < ts.length + 1) = scopes ts := by
    refine List.filter_eq_self.mpr fun s hs => ?_
    have := (isStop_of_mem_scopes hs).1
    simp
    omega
  have hperm := (perm_flatMap_stop (scopes ts) (ts.length + 1)).map (·.operator.text)
  rw [hall, map_text_scopes, List.map_flatMap] at hperm
  rw [arrangement, arrange, List.filterMap_flatMap]
  simpa only [hitems] using hperm

end Contents

theorem Reading.leaves_tree {r : Reading} {e : Expr} (h : r.tree = .ok e) :
    e.leaves = r.tokens.filterMap Token.leaf? := by
  rw [Expr.leaves_eq, postorder_tree h]
  exact filter_isLeaf_arrange _ _

theorem isComplete_tree {r : Reading} {e : Expr} (h : r.tree = .ok e) : e.isComplete = true := by
  refine Reading.tree_induction (P := (·.isComplete = true)) h ?_ ?_
  · intro t _ e he
    cases t <;> cases he <;> rfl
  · intro l o r hl hr
    simp [Expr.isComplete, hl, hr]

/-- The tree of a text has the tokens of the text and no others. In postorder each operator stands
where its scope ends, and the leaves stand in the order of the text. -/
theorem postorder_eq_arrangement {s : String} {e : Expr} (h : parse s = .ok e) :
    e.postorder = arrangement (read s).tokens ∧
    e.renderPostorder =
      .ok (String.intercalate " " ((arrangement (read s).tokens).map Expr.Item.text)) ∧
    e.leaves = (read s).tokens.filterMap Token.leaf? ∧
    e.symbols.Perm ((read s).tokens.filterMap Token.symbol?) := by
  have htree := parse_eq_ok.mp h
  have hpost := postorder_tree htree
  refine ⟨hpost, ?_, ?_, ?_⟩
  · rw [Expr.renderPostorder, Expr.clone_of_isComplete (isComplete_tree htree), ← hpost]
    rfl
  · rw [Expr.leaves_eq, hpost]
    exact filter_isLeaf_arrange _ _
  · have hperm := e.symbols_perm
    rw [hpost] at hperm
    exact hperm.trans (filterMap_symbol?_arrangement _)

theorem postorder_eq_arrangement_across_group :
    parse "1 2 3 ( + ) *" = .ok ((Expr.num 1).join .mul ((Expr.num 2).join .add (.num 3))) ∧
    ((Expr.num 1).join .mul ((Expr.num 2).join .add (.num 3))).postorder =
      arrangement (read "1 2 3 ( + ) *").tokens := by
  have h : parse "1 2 3 ( + ) *" =
      .ok ((Expr.num 1).join .mul ((Expr.num 2).join .add (.num 3))) :=
    parse_eq_ok_of_toOption (by decide +kernel)
  exact ⟨h, (postorder_eq_arrangement h).1⟩

end Formula
