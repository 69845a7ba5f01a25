import Formula.Proofs.Grammar
import Formula.Proofs.Settling

/-!
# The parser groups as the grammar does

While a phrase is read, the parser builds no tree for it: operators of different precedence wait on
the stack at every depth of parentheses. `Stacks.Holds` says what is there after a phrase, namely
its tree on top of what was there before, once the operators that wait since are reduced. Every
production of the grammar keeps this (`Phrase.exists_run`), so the tree of a text that is a sum is
the tree of its derivation.
-/

namespace Formula

/-- Whatever waits on top, back to the innermost open parenthesis, binds less tightly than the
phrases of a category. -/
def Below (c : Category) (ps : List Pending) : Prop :=
  ∀ o, ps.head? = some (.operator o) → o.precedence < c.level

namespace Below

variable {c : Category} {ps : List Pending}

theorem nil : Below c [] := by
  intro o ho
  cases ho

theorem opening : Below c (.opening :: ps) := by
  intro o ho
  cases ho

theorem operator {o : Operator} (ho : o.category = c) : Below c.tighter (.operator o :: ps) := by
  intro o' ho'
  cases ho'
  rw [← Operator.level_category ho, Category.level_tighter (ho ▸ o.category_ne_atom)]
  exact Nat.lt_succ_self _

theorem tighter (h : Below c ps) (hc : c ≠ .atom) : Below c.tighter ps := by
  intro o ho
  have hlt := h o ho
  rw [Category.level_tighter hc]
  omega

theorem released_eq {o : Operator} (h : Below c ps) (ho : o.category = c) :
    Pending.released (·.leftFirst o) ps = [] := by
  rcases ps with - | ⟨o' | -, ps⟩
  · rfl
  · have hlt := h o' rfl
    rw [Operator.level_category ho] at hlt
    simp [Pending.released, Operator.leftFirst, hlt]
  · rfl

theorem kept_eq {o : Operator} (h : Below c ps) (ho : o.category = c) :
    Pending.kept (·.leftFirst o) ps = ps := by
  rcases ps with - | ⟨o' | -, ps⟩
  · rfl
  · have hlt := h o' rfl
    rw [Operator.level_category ho] at hlt
    simp [Pending.kept, Operator.leftFirst, hlt]
  · rfl

end Below

namespace Stacks

variable {c : Category} {e : Expr} {st st' : Stacks}

/-- The tree `e` lies on top of `st` as soon as the operators that wait since are reduced, and these
bind at least as tightly as the category says. -/
def Holds (c : Category) (e : Expr) (st st' : Stacks) : Prop :=
  ∃ os : List Operator, st'.pending = os.map .operator ++ st.pending ∧
    (∀ o ∈ os, c.level ≤ o.precedence) ∧ reduceAll os st'.operands = .ok (e :: st.operands)

theorem holds_push : Holds c e st (st.push e) := ⟨[], rfl, by simp, rfl⟩

theorem Holds.alone (hc : c ≠ .atom) (h : Holds c.tighter e st st') : Holds c e st st' := by
  obtain ⟨os, hp, hos, hr⟩ := h
  refine ⟨os, hp, fun o ho => ?_, hr⟩
  have hle := hos o ho
  rw [Category.level_tighter hc] at hle
  omega

theorem Holds.step_operator {o : Operator} (ho : o.category = c) (hb : Below c st.pending)
    (h : Holds c e st st') :
    st'.step? (.operator o) = some ⟨e :: st.operands, .operator o :: st.pending⟩ := by
  obtain ⟨os, hp, hos, hr⟩ := h
  have hdue : ∀ o' ∈ os, o'.leftFirst o = true := by
    intro o' ho'
    have hle := hos o' ho'
    rw [Operator.level_category ho] at hle
    simpa [Operator.leftFirst] using hle
  refine step?_eq_some.mpr ⟨e :: st.operands, ?_, ?_, rfl⟩
  · rw [hp, Pending.reducedBy, Pending.released_append hdue, hb.released_eq ho, List.append_nil]
    exact hr
  · rw [hp, Pending.after?, Pending.kept_append hdue, hb.kept_eq ho]

theorem Holds.binary {o : Operator} {l r : Expr} (ho : o.category = c)
    (h : Holds c.tighter r ⟨l :: st.operands, .operator o :: st.pending⟩ st') :
    Holds c (l.join o r) st st' := by
  obtain ⟨os, hp, hos, hr⟩ := h
  refine ⟨os ++ [o], by simp [hp], ?_, ?_⟩
  · intro o' ho'
    rcases List.mem_append.mp ho' with ho' | ho'
    · have hle := hos o' ho'
      rw [Category.level_tighter (ho ▸ o.category_ne_atom)] at hle
      omega
    · rw [List.mem_singleton.mp ho']
      exact Nat.le_of_eq (Operator.level_category ho)
  · rw [reduceAll_append, hr]
    rfl

theorem Holds.step_closing (h : Holds c e st.openGroup st') :
    st'.step? .closing = some (st.push e) := by
  obtain ⟨os, hp, -, hr⟩ := h
  have hdue : ∀ o ∈ os, (fun _ : Operator => true) o = true := fun _ _ => rfl
  refine step?_eq_some.mpr ⟨e :: st.operands, ?_, ?_, rfl⟩
  · rw [hp, Pending.reducedBy, Pending.released_append hdue]
    simpa [openGroup] using hr
  · rw [hp, Pending.after?, Pending.kept_append hdue]
    rfl

theorem Holds.finish_eq (h : Holds c e empty st') : st'.finish = .ok e := by
  obtain ⟨os, hp, -, hr⟩ := h
  have hdue : ∀ o ∈ os, (fun _ : Operator => true) o = true := fun _ _ => rfl
  refine finish_eq_ok.mpr ⟨?_, ?_⟩
  · rw [hp, Pending.kept_append hdue]
    rfl
  · rw [hp, Pending.released_append hdue]
    simpa [empty] using hr

end Stacks

namespace Phrase

variable {c : Category}

/-- The parser takes in every phrase, on top of any stacks whose operators let it be grouped. -/
theorem exists_run (p : Phrase c) (st : Stacks) (hb : Below c st.pending) :
    ∃ st', st.run? p.tokens = some st' ∧ Stacks.Holds c p.tree st st' := by
  induction p generalizing st with
  | number x | name n => exact ⟨_, rfl, Stacks.holds_push⟩
  | group p ih =>
    obtain ⟨st', hrun, hst'⟩ := ih st.openGroup Below.opening
    refine ⟨st.push p.tree, ?_, Stacks.holds_push⟩
    rw [tokens, Stacks.run?]
    simp only [Stacks.step?, Option.bind_some]
    rw [Stacks.run?_append, hrun, Option.bind_some, Stacks.run?, hst'.step_closing]
    rfl
  | alone hc p ih =>
    obtain ⟨st', hrun, hst'⟩ := ih st (hb.tighter hc)
    exact ⟨st', hrun, hst'.alone hc⟩
  | binary o ho l r ihl ihr =>
    obtain ⟨st₁, hrun₁, hst₁⟩ := ihl st hb
    obtain ⟨st₂, hrun₂, hst₂⟩ := ihr ⟨l.tree :: st.operands, .operator o :: st.pending⟩
      (Below.operator ho)
    refine ⟨st₂, ?_, hst₂.binary ho⟩
    rw [tokens, Stacks.run?_append, hrun₁, Option.bind_some, Stacks.run?, hst₁.step_operator ho hb]
    exact hrun₂

theorem tree_reading {r : Reading} (hr : r.stray = none) (p : Phrase c)
    (hp : p.tokens = r.tokens) : r.tree = .ok p.tree := by
  obtain ⟨st, hrun, hst⟩ := p.exists_run .empty Below.nil
  rw [Reading.tree, ← hp, hrun, hr]
  exact hst.finish_eq

theorem exists_loosen {c' : Category} (h : c'.level ≤ c.level) (p : Phrase c) :
    ∃ q : Phrase c', q.tokens = p.tokens ∧ q.tree = p.tree := by
  by_cases heq : c' = c
  · subst heq
    exact ⟨p, rfl, rfl⟩
  · have hne : c'.level ≠ c.level := fun hl => heq (Category.level_injective hl)
    have hc : c' ≠ .atom := by
      rintro rfl
      cases c <;> simp_all [Category.level]
    have ht := Category.level_tighter hc
    have hstep : c'.tighter.level ≤ c.level := by omega
    obtain ⟨q, hq, htree⟩ := exists_loosen hstep p
    exact ⟨.alone hc q, hq, htree⟩
termination_by c.level - c'.level

theorem exists_binary {o : Operator} {c' : Category} (hl : o.precedence ≤ c.level)
    (hr : o.precedence < c'.level) (l : Phrase c) (r : Phrase c') :
    ∃ q : Phrase o.category, q.tokens = l.tokens ++ .operator o :: r.tokens ∧
      q.tree = l.tree.join o r.tree := by
  have hlevel := Operator.level_category (o := o) rfl
  have ht := Category.level_tighter o.category_ne_atom
  have hlo : o.category.level ≤ c.level := by omega
  have hro : o.category.tighter.level ≤ c'.level := by omega
  obtain ⟨l', hl', htl⟩ := exists_loosen hlo l
  obtain ⟨r', hr', htr⟩ := exists_loosen hro r
  exact ⟨.binary o rfl l' r', by simp [tokens, hl', hr'], by simp [tree, htl, htr]⟩

theorem exists_binary_sum (o : Operator) (a b : Phrase .atom) :
    ∃ q : Phrase .sum, q.tokens = a.tokens ++ .operator o :: b.tokens ∧
      q.tree = a.tree.join o b.tree := by
  have hatom := o.precedence_lt_atom
  obtain ⟨m, hm, htm⟩ := exists_binary (Nat.le_of_lt hatom) hatom a b
  obtain ⟨q, hq, htq⟩ := exists_loosen (Category.level_sum_le _) m
  exact ⟨q, hq.trans hm, htq.trans htm⟩

/-- Of two operators between three atoms the second goes first exactly if it binds tighter. -/
theorem exists_chain (a b d : Phrase .atom) (o o' : Operator) :
    ∃ q : Phrase .sum,
      q.tokens = a.tokens ++ .operator o :: (b.tokens ++ .operator o' :: d.tokens) ∧
      q.tree = if o'.precedence ≤ o.precedence then (a.tree.join o b.tree).join o' d.tree
        else a.tree.join o (b.tree.join o' d.tree) := by
  have hatom := o.precedence_lt_atom
  have hatom' := o'.precedence_lt_atom
  by_cases hle : o'.precedence ≤ o.precedence
  · obtain ⟨l, hl, htl⟩ := exists_binary (Nat.le_of_lt hatom) hatom a b
    obtain ⟨m, hm, htm⟩ := exists_binary (by rwa [Operator.level_category rfl]) hatom' l d
    obtain ⟨q, hq, htq⟩ := exists_loosen (Category.level_sum_le _) m
    exact ⟨q, by simp [hq, hm, hl], by simp [htq, htm, htl, hle]⟩
  · obtain ⟨r, hr, htr⟩ := exists_binary (Nat.le_of_lt hatom') hatom' b d
    have hlt : o.precedence < o'.category.level := by
      rw [Operator.level_category rfl]
      omega
    obtain ⟨m, hm, htm⟩ := exists_binary (Nat.le_of_lt hatom) hlt a r
    obtain ⟨q, hq, htq⟩ := exists_loosen (Category.level_sum_le _) m
    exact ⟨q, by simp [hq, hm, hr], by simp [htq, htm, htr, hle]⟩

end Phrase

/-- A text whose tokens are those of a sum parses to the tree of its only derivation. Of two
operators in a row the tighter one goes first, and the left one if they bind alike. -/
theorem parse_eq_tree (s : String) (hs : (read s).stray = none) :
    (∀ p : Phrase .sum, p.tokens = (read s).tokens →
      parse s = .ok p.tree ∧ ∀ q : Phrase .sum, q.tokens = (read s).tokens → q = p) ∧
    ∀ (a b d : Phrase .atom) (o o' : Operator),
      (read s).tokens = a.tokens ++ .operator o :: (b.tokens ++ .operator o' :: d.tokens) →
      parse s = .ok (if o'.precedence ≤ o.precedence then (a.tree.join o b.tree).join o' d.tree
        else a.tree.join o (b.tree.join o' d.tree)) := by
  have hparse : ∀ p : Phrase .sum, p.tokens = (read s).tokens → parse s = .ok p.tree := by
    intro p hp
    rw [parse_eq, p.tree_reading hs hp]
    rfl
  refine ⟨fun p hp => ⟨hparse p hp, fun q hq => q.eq_of_tokens_eq p (hq.trans hp.symm)⟩, ?_⟩
  intro a b d o o' h
  obtain ⟨q, hq, htree⟩ := Phrase.exists_chain a b d o o'
  rw [← htree]
  exact hparse q (hq.trans h.symm)

theorem parse_eq_tree_powers :
    (read "2^x^3 * (y - .5e1)").stray = none ∧
    parse "2^x^3 * (y - .5e1)" = .ok (.bin (.bin (.bin (.num 2) "^" (.var "x")) "^" (.num 3)) "*"
      (.bin (.var "y") "-" (.num 5))) := by
  have hs : (read "2^x^3 * (y - .5e1)").stray = none := by decide +kernel
  let cube : Phrase .power :=
    .binary .pow rfl (.binary .pow rfl (.alone (by decide) (.number 2)) (.name "x")) (.number 3)
  let difference : Phrase .sum :=
    .binary .sub rfl
      (.alone (by decide) (.alone (by decide) (.alone (by decide) (.name "y"))))
      (.alone (by decide) (.alone (by decide) (.number 5)))
  let p : Phrase .sum :=
    .alone (by decide) (.binary .mul rfl (.alone (by decide) cube)
      (.alone (by decide) (.group difference)))
  have hp : p.tokens = (read "2^x^3 * (y - .5e1)").tokens := by decide +kernel
  exact ⟨hs, ((parse_eq_tree _ hs).1 p hp).1⟩

end Formula
