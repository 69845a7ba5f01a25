import Formula.Proofs.Arrangement
import Formula.Proofs.Patch

/-!
# Trees in place of leaves

`Expr.Grafted` relates a tree to the one that has other trees in place of its leaves, and lists the
leaves with their replacements from left to right. Reductions keep this relation between the trees
on two stacks (`GraftedAll.exists_reduceAll`), and a text with patches pushes a tree where the text
without them pushes a leaf, so it is accepted and its tree is grafted (`parse_patched`). With one
patch, one leaf is replaced (`parse_patch`).
-/

namespace Formula

theorem append_eq_append_cons {α : Type} {as bs cs ds : List α} {a : α}
    (h : cs ++ ds = as ++ a :: bs) :
    (∃ es, cs = as ++ a :: es ∧ bs = es ++ ds) ∨ ∃ es, as = cs ++ es ∧ ds = es ++ a :: bs := by
  rcases List.append_eq_append_iff.mp h with ⟨es, has, hds⟩ | ⟨es, hcs, hbs⟩
  · exact Or.inr ⟨es, has, hds⟩
  · cases es with
    | nil => exact Or.inr ⟨[], by simpa using hcs.symm, by simpa using hbs.symm⟩
    | cons e es =>
      obtain ⟨rfl, hbs'⟩ := List.cons.inj hbs
      exact Or.inl ⟨es, hcs, hbs'⟩

namespace Expr

/-- The second tree is the first with other trees in place of its leaves. The leaves and what
replaces them are listed from left to right. -/
inductive Grafted : List (Expr × Expr) → Expr → Expr → Prop
  | leaf {t : Token} {a : Expr} (ha : t.operand? = some a) (f : Expr) : Grafted [(a, f)] a f
  | bin {gs hs : List (Expr × Expr)} {l l' r r' : Expr} (s : String) (hl : Grafted gs l l')
      (hr : Grafted hs r r') : Grafted (gs ++ hs) (bin l s r) (bin l' s r')

/-- The tree with another one in place of the leaf that has `k` leaves to its left. -/
def replaceLeaf (e : Expr) (k : Nat) (new : Expr) : Expr :=
  match e with
  | num _ | var _ => if k = 0 then new else e
  | bin l s r =>
    if k < l.leaves.length then bin (l.replaceLeaf k new) s r
    else bin l s (r.replaceLeaf (k - l.leaves.length) new)
  | hole => hole

theorem leaves_replaceLeaf {e new : Expr} {k : Nat} (hk : k < e.leaves.length) :
    (e.replaceLeaf k new).leaves = e.leaves.take k ++ new.leaves ++ e.leaves.drop (k + 1) := by
  induction e generalizing k with
  | num x | var n =>
    obtain rfl : k = 0 := Nat.lt_one_iff.mp hk
    simp [replaceLeaf, leaves]
  | hole => cases hk
  | bin l s r ihl ihr =>
    rw [leaves, List.length_append] at hk
    rw [replaceLeaf]
    by_cases hl : k < l.leaves.length
    · rw [if_pos hl, leaves, leaves, ihl hl, List.take_append_of_le_length (Nat.le_of_lt hl),
        List.drop_append_of_le_length hl]
      simp only [List.append_assoc]
    · have hle : l.leaves.length ≤ k := Nat.le_of_not_lt hl
      have hr : k - l.leaves.length < r.leaves.length := by omega
      rw [if_neg hl, leaves, leaves, ihr hr, List.take_append, List.drop_append,
        List.take_of_length_le hle, List.drop_of_length_le (Nat.le_succ_of_le hle),
        Nat.sub_add_comm hle]
      simp only [List.append_assoc, List.nil_append]

namespace Grafted

variable {gs as bs : List (Expr × Expr)} {a e e' new : Expr}

theorem length_eq (h : Grafted gs e e') : gs.length = e.leaves.length := by
  induction h with
  | @leaf t a ha f => cases t <;> cases ha <;> rfl
  | bin s hl hr ihl ihr => rw [List.length_append, ihl, ihr, leaves, List.length_append]

theorem eq_self (h : Grafted gs e e') (hgs : ∀ g ∈ gs, g.2 = g.1) : e' = e := by
  induction h with
  | leaf ha f => exact hgs _ List.mem_cons_self
  | bin s hl hr ihl ihr =>
    obtain ⟨hgl, hgr⟩ := List.forall_mem_append.mp hgs
    rw [ihl hgl, ihr hgr]

theorem eq_replaceLeaf (h : Grafted gs e e') (hgs : gs = as ++ (a, new) :: bs)
    (has : ∀ g ∈ as, g.2 = g.1) (hbs : ∀ g ∈ bs, g.2 = g.1) :
    e' = e.replaceLeaf as.length new := by
  induction h generalizing as bs with
  | @leaf t b hb f =>
    cases as with
    | nil =>
      cases hgs
      cases t <;> cases hb <;> rfl
    | cons g as => simp at hgs
  | @bin gs hs l l' r r' s hl hr ihl ihr =>
    rw [replaceLeaf, ← hl.length_eq]
    rcases append_eq_append_cons hgs with ⟨cs, hcs, rfl⟩ | ⟨cs, rfl, hhs⟩
    · have hlt : as.length < gs.length := by simp [hcs]
      obtain ⟨hleft, hright⟩ := List.forall_mem_append.mp hbs
      rw [if_pos hlt, hr.eq_self hright, ← ihl hcs has hleft]
    · have hnot : ¬ (gs ++ cs).length < gs.length := by simp
      have hk : (gs ++ cs).length - gs.length = cs.length := by simp
      obtain ⟨hleft, hright⟩ := List.forall_mem_append.mp has
      rw [if_neg hnot, hk, hl.eq_self hleft, ← ihr hhs hright hbs]

end Grafted

end Expr

open Formula.Expr (Grafted)

/-- The trees on the second stack are those on the first, grafted. What is grafted is listed from
the bottom up. -/
inductive GraftedAll : List (Expr × Expr) → List Expr → List Expr → Prop
  | nil : GraftedAll [] [] []
  | cons {gs hs : List (Expr × Expr)} {es es' : List Expr} {e e' : Expr}
      (hes : GraftedAll gs es es') (he : Grafted hs e e') :
      GraftedAll (gs ++ hs) (e :: es) (e' :: es')

theorem GraftedAll.singleton {gs : List (Expr × Expr)} {e : Expr} {es' : List Expr}
    (h : GraftedAll gs [e] es') : ∃ e', es' = [e'] ∧ Grafted gs e e' := by
  generalize hes : [e] = es at h
  cases h with
  | nil => cases hes
  | @cons gs hs fs fs' f f' hfs hf =>
    cases hes
    cases hfs
    exact ⟨f', rfl, hf⟩

theorem GraftedAll.exists_reduceAll {gs : List (Expr × Expr)} {es es' fs : List Expr}
    {os : List Operator} (h : GraftedAll gs es es') (hred : reduceAll os es = .ok fs) :
    ∃ fs', reduceAll os es' = .ok fs' ∧ GraftedAll gs fs fs' := by
  induction os generalizing gs es es' with
  | nil =>
    cases hred
    exact ⟨es', rfl, h⟩
  | cons o os ih =>
    obtain ⟨l, r, rest, rfl, hr⟩ := reduceAll_cons_eq_ok.mp hred
    obtain _ | ⟨_ | ⟨hrest, hleft⟩, hright⟩ := h
    have hjoin := hrest.cons (Grafted.bin o.text hleft hright)
    rw [← List.append_assoc] at hjoin
    obtain ⟨fs', hred', hfs⟩ := ih hjoin hr
    exact ⟨fs', reduceAll_cons_eq_ok.mpr ⟨_, _, _, rfl, hred'⟩, hfs⟩

theorem Stacks.step?_of_operand? {t : Token} {a : Expr} (ha : t.operand? = some a) (st : Stacks) :
    st.step? t = some (st.push a) := by
  cases t <;> cases ha <;> rfl

namespace Patch

def graft? (q : Patch) : Option (Expr × Expr) :=
  q.piece.lexeme.token.operand?.map fun a => (a, (q.group.map Prod.snd).getD a)

variable {q : Patch} {qs : List Patch} {gs : List (Expr × Expr)} {st st₁ st' : Stacks}

theorem tokens_of_operand?_eq_none (hq : q.Valid) (ha : q.piece.lexeme.token.operand? = none) :
    q.tokens = [q.piece.lexeme.token] := by
  unfold tokens
  cases hg : q.group with
  | none => rfl
  | some g =>
    have hoperand := (hq g.1 g.2 hg).1
    cases ht : q.piece.lexeme.token with
    | number x | name n => simp [ht, Token.operand?] at ha
    | operator o | opening | closing => simp [ht, Token.isOperand] at hoperand

theorem run?_tokens_of_operand? {a : Expr} (hq : q.Valid)
    (ha : q.piece.lexeme.token.operand? = some a) (st : Stacks) :
    st.run? q.tokens = some (st.push ((q.group.map Prod.snd).getD a)) := by
  unfold tokens
  cases hg : q.group with
  | none => exact Stacks.run?_cons_eq_some.mpr ⟨_, Stacks.step?_of_operand? ha st, rfl⟩
  | some g => exact Reading.run?_group (parse_eq_ok.mp (hq g.1 g.2 hg).2) st

/-- What a patch does to the stacks differs from what its lexeme does by a graft alone. -/
theorem exists_run?_tokens (hq : q.Valid) (hstep : st.step? q.piece.lexeme.token = some st₁)
    (hpending : st'.pending = st.pending) (h : GraftedAll gs st.operands st'.operands) :
    ∃ st₁', st'.run? q.tokens = some st₁' ∧ st₁'.pending = st₁.pending ∧
      GraftedAll (gs ++ q.graft?.toList) st₁.operands st₁'.operands := by
  unfold graft?
  cases ha : q.piece.lexeme.token.operand? with
  | some a =>
    rw [Stacks.step?_of_operand? ha] at hstep
    cases hstep
    exact ⟨_, run?_tokens_of_operand? hq ha st', hpending, h.cons (Grafted.leaf ha _)⟩
  | none =>
    obtain ⟨es, hred, hafter, hes⟩ := Stacks.step?_eq_some.mp hstep
    obtain ⟨es', hred', hgrafted⟩ := h.exists_reduceAll hred
    rw [← hpending] at hred' hafter
    have hstep' : st'.step? q.piece.lexeme.token = some ⟨es', st₁.pending⟩ :=
      Stacks.step?_eq_some.mpr ⟨es', hred', hafter, by simp [ha]⟩
    refine ⟨⟨es', st₁.pending⟩, ?_, rfl, ?_⟩
    · rw [tokens_of_operand?_eq_none hq ha]
      exact Stacks.run?_cons_eq_some.mpr ⟨_, hstep', rfl⟩
    · simpa [hes, ha] using hgrafted

theorem exists_run?_flatMap (hqs : ∀ q ∈ qs, q.Valid)
    (hrun : st.run? (qs.map (·.piece.lexeme.token)) = some st₁)
    (hpending : st'.pending = st.pending) (h : GraftedAll gs st.operands st'.operands) :
    ∃ st₁', st'.run? (qs.flatMap tokens) = some st₁' ∧ st₁'.pending = st₁.pending ∧
      GraftedAll (gs ++ qs.filterMap graft?) st₁.operands st₁'.operands := by
  induction qs generalizing gs st st' with
  | nil =>
    cases hrun
    exact ⟨st', rfl, hpending, by simpa using h⟩
  | cons q qs ih =>
    obtain ⟨hq, hqs⟩ := List.forall_mem_cons.mp hqs
    obtain ⟨st₂, hstep, hrun⟩ := Stacks.run?_cons_eq_some.mp hrun
    obtain ⟨st₂', hrun₂, hpending₂, h₂⟩ := exists_run?_tokens hq hstep hpending h
    obtain ⟨st₁', hrun₁, hpending₁, h₁⟩ := ih hqs hrun hpending₂ h₂
    refine ⟨st₁', ?_, hpending₁, ?_⟩
    · rw [List.flatMap_cons, Stacks.run?_append, hrun₂]
      exact hrun₁
    · have hlist : (q :: qs).filterMap graft? = q.graft?.toList ++ qs.filterMap graft? := by
        rw [List.filterMap_cons]
        cases q.graft? <;> rfl
      rwa [hlist, ← List.append_assoc]

end Patch

/-- A text that is accepted is accepted with patches, and its tree is grafted. -/
theorem parse_patched {s : String} {e : Expr} {qs : List Patch} (hs : parse s = .ok e)
    (hqs : qs.map Patch.piece = (read s).pieces) (hvalid : ∀ q ∈ qs, q.Valid) :
    ∃ tail e', (read s).pieces.flatMap Piece.text ++ tail = s.toList ∧
      parse (String.ofList (qs.flatMap Patch.text ++ tail)) = .ok e' ∧
      Grafted (qs.filterMap Patch.graft?) e e' := by
  obtain ⟨hstray, st, hrun, hfin⟩ := Reading.tree_eq_ok.mp (parse_eq_ok.mp hs)
  have htokens : (read s).tokens = qs.map (·.piece.lexeme.token) := by
    rw [Reading.tokens, ← hqs, List.map_map]
    rfl
  rw [read_eq] at hqs hstray
  obtain ⟨tail, htail, hscans, -⟩ := scans_patched hstray qs hqs hvalid
  rw [← String.toList_ofList (l := qs.flatMap Patch.text ++ tail)] at hscans
  rw [htokens] at hrun
  obtain ⟨st', hrun', hpending, hgrafted⟩ := Patch.exists_run?_flatMap hvalid hrun rfl .nil
  obtain ⟨hkept, hred⟩ := Stacks.finish_eq_ok.mp hfin
  obtain ⟨es', hred', hfinal⟩ := hgrafted.exists_reduceAll hred
  obtain ⟨e', rfl, he⟩ := hfinal.singleton
  rw [← hpending] at hkept hred'
  exact ⟨tail, e', read_eq s ▸ htail,
    hscans.parse_eq_ok hrun' (Stacks.finish_eq_ok.mpr ⟨hkept, hred'⟩), he⟩

theorem Token.isSome_leaf? (t : Token) : t.leaf?.isSome = t.isOperand := by
  cases t <;> rfl

theorem Token.isSome_operand? (t : Token) : t.operand?.isSome = t.isOperand := by
  cases t <;> rfl

/-- An operand of a text is a leaf of its tree, with a leaf to its left for every operand before
it. -/
theorem Reading.getElem?_leaves_tree {r : Reading} {e : Expr} {ts us : List Token} {t : Token}
    (h : r.tree = .ok e) (hr : r.tokens = ts ++ t :: us) (ht : t.isOperand = true) :
    e.leaves[ts.countP Token.isOperand]? = t.leaf? := by
  obtain ⟨i, hi⟩ := Option.isSome_iff_exists.mp ((Token.isSome_leaf? t).trans ht)
  have hcount : ts.countP Token.isOperand = (ts.filterMap Token.leaf?).length := by
    rw [List.length_filterMap_eq_countP]
    simp only [Token.isSome_leaf?]
  have hleaves : e.leaves = ts.filterMap Token.leaf? ++ i :: us.filterMap Token.leaf? := by
    rw [Reading.leaves_tree h, hr, List.filterMap_append, List.filterMap_cons_some hi]
  rw [hleaves, hcount, hi, List.getElem?_append_right (Nat.le_refl _), Nat.sub_self]
  rfl

namespace Patch

def keep (p : Piece) : Patch := ⟨p, none⟩

theorem valid_keep (p : Piece) : (keep p).Valid := by
  intro s e h
  cases h

theorem flatMap_text_keep (ps : List Piece) : (ps.map keep).flatMap text = ps.flatMap Piece.text :=
  List.flatMap_map _ _ _

theorem eq_of_mem_grafts_keep {ps : List Piece} {g : Expr × Expr}
    (hg : g ∈ (ps.map keep).filterMap graft?) : g.2 = g.1 := by
  rw [List.filterMap_map] at hg
  obtain ⟨p, -, hp⟩ := List.mem_filterMap.mp hg
  obtain ⟨a, -, rfl⟩ := Option.map_eq_some_iff.mp hp
  rfl

theorem length_grafts_keep (ps : List Piece) :
    ((ps.map keep).filterMap graft?).length = ps.countP (·.lexeme.token.isOperand) := by
  rw [List.filterMap_map, List.length_filterMap_eq_countP]
  refine List.countP_congr fun p _ => ?_
  simp [graft?, keep, Token.isSome_operand?]

def only (before : List Piece) (p : Piece) (after : List Piece) (s : String) (e : Expr) :
    List Patch :=
  before.map keep ++ ⟨p, some (s, e)⟩ :: after.map keep

variable {before after : List Piece} {p : Piece} {s : String} {e : Expr}

theorem map_piece_only : (only before p after s e).map piece = before ++ p :: after := by
  simp [only, keep, Function.comp_def]

theorem valid_of_mem_only (hp : p.lexeme.token.isOperand = true) (hs : parse s = .ok e) :
    ∀ q ∈ only before p after s e, q.Valid := by
  have hkeep (ps : List Piece) : ∀ q ∈ ps.map keep, q.Valid :=
    List.forall_mem_map.mpr fun p _ => valid_keep p
  have hreplaced : Valid ⟨p, some (s, e)⟩ := by
    intro s' e' hgroup
    cases hgroup
    exact ⟨hp, hs⟩
  exact List.forall_mem_append.mpr
    ⟨hkeep before, List.forall_mem_cons.mpr ⟨hreplaced, hkeep after⟩⟩

theorem flatMap_text_only : (only before p after s e).flatMap text =
    before.flatMap Piece.text ++ p.blanks ++
      '(' :: (s.toList ++ ')' :: after.flatMap Piece.text) := by
  simp [only, text, flatMap_text_keep]

theorem eq_replaceLeaf_of_only {f f' : Expr} (hp : p.lexeme.token.isOperand = true)
    (h : Grafted ((only before p after s e).filterMap graft?) f f') :
    f' = f.replaceLeaf (before.countP (·.lexeme.token.isOperand)) e := by
  obtain ⟨a, ha⟩ := Option.isSome_iff_exists.mp ((Token.isSome_operand? _).trans hp)
  have hgraft : graft? ⟨p, some (s, e)⟩ = some (a, e) := by simp [graft?, ha]
  have hgrafts : (only before p after s e).filterMap graft? =
      (before.map keep).filterMap graft? ++ (a, e) :: (after.map keep).filterMap graft? := by
    rw [only, List.filterMap_append, List.filterMap_cons_some hgraft]
  have htree := h.eq_replaceLeaf hgrafts (fun g => eq_of_mem_grafts_keep)
    (fun g => eq_of_mem_grafts_keep)
  rwa [length_grafts_keep] at htree

end Patch

section Replacing

variable {s s' : String} {e e' : Expr}

theorem parse_group (hs : parse s = .ok e) : parse ("(" ++ s ++ ")") = .ok e := by
  have hscans := Scans.group (scans_of_parse hs) scans_nil
  have htext : ("(" ++ s ++ ")").toList = '(' :: (s.toList ++ [')']) := by simp
  rw [← htext] at hscans
  exact hscans.parse_eq_ok (Reading.run?_group (parse_eq_ok.mp hs) .empty) rfl

theorem parse_join_groups (hs : parse s = .ok e) (hs' : parse s' = .ok e') (o : Operator) :
    parse ("(" ++ s ++ ") " ++ o.text ++ " (" ++ s' ++ ")") = .ok (e.join o e') := by
  have hright := (Scans.group (scans_of_parse hs') scans_nil).space
  have hsymbol := (Scans.symbol (Lexeme.ofSymbol?_symbol o) hright).space
  have hscans := Scans.group (scans_of_parse hs) hsymbol
  have htext : ("(" ++ s ++ ") " ++ o.text ++ " (" ++ s' ++ ")").toList =
      '(' :: (s.toList ++ ')' :: ' ' :: o.symbol :: ' ' :: '(' :: (s'.toList ++ [')'])) := by
    simp [Operator.text]
  rw [← htext] at hscans
  let st : Stacks := ⟨[e], [.operator o]⟩
  have hleft := Reading.run?_group (parse_eq_ok.mp hs) .empty
  have hwait : (Stacks.empty.push e).step? (.operator o) = some st := rfl
  have hrun : Stacks.empty.run? (.opening :: ((read s).tokens ++ .closing :: .operator o ::
      .opening :: ((read s').tokens ++ [.closing]))) = some (st.push e') := by
    have happend := Stacks.run?_append .empty (.opening :: ((read s).tokens ++ [.closing]))
      (.operator o :: .opening :: ((read s').tokens ++ [.closing]))
    rw [hleft, Option.bind_some, Stacks.run?_cons_eq_some.mpr
      ⟨st, hwait, Reading.run?_group (parse_eq_ok.mp hs') st⟩] at happend
    simpa using happend
  exact hscans.parse_eq_ok hrun rfl

/-- An operand of a text may be replaced by another text in parentheses. -/
theorem parse_patch {before after : List Piece} {p : Piece} (hs : parse s = .ok e)
    (hpieces : (read s).pieces = before ++ p :: after) (hp : p.lexeme.token.isOperand = true)
    (hs' : parse s' = .ok e') :
    let start := before.flatMap Piece.text ++ p.blanks
    ∃ rest, s.toList = start ++ (p.lexeme.text ++ rest) ∧
      parse (String.ofList (start ++ '(' :: (s'.toList ++ ')' :: rest))) =
        .ok (e.replaceLeaf (before.countP (·.lexeme.token.isOperand)) e') := by
  obtain ⟨tail, e'', htext, hparse, hgrafted⟩ := parse_patched hs
    (Patch.map_piece_only.trans hpieces.symm) (Patch.valid_of_mem_only hp hs')
  refine ⟨after.flatMap Piece.text ++ tail, ?_, ?_⟩
  · rw [← htext, hpieces]
    simp [Piece.text]
  · rw [Patch.flatMap_text_only] at hparse
    rw [← Patch.eq_replaceLeaf_of_only hp hgrafted, ← hparse]
    simp

end Replacing

/-- A text in parentheses stands for its tree in every place. In a text that is accepted any operand
may be replaced by another accepted text in parentheses, and in the tree the leaf that comes from
the operand is replaced by the tree of that text. So parentheses around a whole text change nothing,
and two texts in parentheses with an operator between them are joined. -/
theorem parse_replace_operand {s : String} {e : Expr} (hs : parse s = .ok e) :
    (∀ before p after s' e', (read s).pieces = before ++ p :: after →
      p.lexeme.token.isOperand = true → parse s' = .ok e' →
      let start := before.flatMap Piece.text ++ p.blanks
      let k := before.countP (·.lexeme.token.isOperand)
      ∃ rest, s.toList = start ++ (p.lexeme.text ++ rest) ∧
        e.leaves[k]? = p.lexeme.token.leaf? ∧
        parse (String.ofList (start ++ '(' :: (s'.toList ++ ')' :: rest))) =
          .ok (e.replaceLeaf k e')) ∧
    parse ("(" ++ s ++ ")") = .ok e ∧
    ∀ s' e' o, parse s' = .ok e' →
      parse ("(" ++ s ++ ") " ++ Operator.text o ++ " (" ++ s' ++ ")") = .ok (e.join o e') := by
  refine ⟨fun before p after s' e' hpieces hp hs' => ?_, parse_group hs,
    fun s' e' o hs' => parse_join_groups hs hs' o⟩
  obtain ⟨rest, htext, hparse⟩ := parse_patch hs hpieces hp hs'
  have htokens : (read s).tokens = before.map (·.lexeme.token) ++
      p.lexeme.token :: after.map (·.lexeme.token) := by
    rw [Reading.tokens, hpieces, List.map_append, List.map_cons]
  have hleaf := Reading.getElem?_leaves_tree (parse_eq_ok.mp hs) htokens hp
  rw [List.countP_map] at hleaf
  exact ⟨rest, htext, hleaf, hparse⟩

theorem parse_replace_operand_postfix :
    parse "2x+" = .ok ((Expr.num 2).join .add (.var "x")) ∧
    parse "3 4 *" = .ok ((Expr.num 3).join .mul (.num 4)) ∧
    parse "2(3 4 *)+" = .ok ((Expr.num 2).join .add ((Expr.num 3).join .mul (.num 4))) := by
  have hs : parse "2x+" = .ok ((Expr.num 2).join .add (.var "x")) :=
    parse_eq_ok_of_toOption (by decide +kernel)
  have hs' : parse "3 4 *" = .ok ((Expr.num 3).join .mul (.num 4)) :=
    parse_eq_ok_of_toOption (by decide +kernel)
  have hpieces : (read "2x+").pieces =
      [⟨[], .numeral ⟨['2'], false, [], none⟩⟩] ++ ⟨[], .name ['x']⟩ :: [⟨[], .operator .add⟩] := by
    decide +kernel
  obtain ⟨rest, htext, -, hparse⟩ := (parse_replace_operand hs).1 _ _ _ _ _ hpieces rfl hs'
  obtain rfl : rest = ['+'] := by
    simpa [Piece.text, Lexeme.text, Numeral.text] using htext.symm
  exact ⟨hs, hs', hparse⟩

end Formula
