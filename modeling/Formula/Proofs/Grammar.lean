import Formula.Expr.Basic
import Formula.Proofs.Nesting

/-!
# The grammar of well-formed formulas

A sum is made of products by `+` and `-`, a product of powers by `*` and `/`, a power of atoms by
`^`, always to the left, and an atom is a number, a name or a sum in parentheses. A `Phrase` is a
derivation in this grammar. It has the tokens that it derives and the tree that it groups them into,
in which parentheses are gone. Main statement: no tokens have two derivations of one category
(`Phrase.eq_of_tokens_eq`).
-/

namespace Formula

/-- The categories of the grammar, from the loosest to the tightest. -/
inductive Category where
  | sum
  | product
  | power
  | atom
deriving DecidableEq, Repr

namespace Category

def level : Category → Nat
  | sum => 1
  | product => 2
  | power => 3
  | atom => 4

def tighter : Category → Category
  | sum => product
  | product => power
  | power | atom => atom

theorem level_tighter {c : Category} (h : c ≠ atom) : c.tighter.level = c.level + 1 := by
  cases c with
  | atom => exact absurd rfl h
  | sum | product | power => rfl

theorem level_injective {c c' : Category} (h : c.level = c'.level) : c = c' := by
  cases c <;> cases c' <;> first | rfl | cases h

theorem level_sum_le (c : Category) : sum.level ≤ c.level := by cases c <;> decide

theorem level_le_atom (c : Category) : c.level ≤ atom.level := by cases c <;> decide

end Category

namespace Operator

def category : Operator → Category
  | add | sub => .sum
  | div | mul => .product
  | pow => .power

theorem level_category {o : Operator} {c : Category} (h : o.category = c) :
    c.level = o.precedence := by
  rw [← h]
  cases o <;> rfl

theorem category_ne_atom (o : Operator) : o.category ≠ .atom := by cases o <;> decide

theorem precedence_lt_atom (o : Operator) : o.precedence < Category.atom.level := by
  cases o <;> decide

end Operator

/-- Derivations, by category. A phrase of the next tighter category may stand alone, and an operator
joins a phrase of its own category on the left to one of the next tighter category on the right. -/
inductive Phrase : Category → Type where
  | number (x : Float) : Phrase .atom
  | name (n : String) : Phrase .atom
  | group (p : Phrase .sum) : Phrase .atom
  | alone {c : Category} (hc : c ≠ .atom) (p : Phrase c.tighter) : Phrase c
  | binary {c : Category} (o : Operator) (ho : o.category = c) (l : Phrase c)
      (r : Phrase c.tighter) : Phrase c

namespace Phrase

def tokens {c : Category} : Phrase c → List Token
  | number x => [.number x]
  | name n => [.name n]
  | group p => .opening :: (p.tokens ++ [.closing])
  | alone _ p => p.tokens
  | binary o _ l r => l.tokens ++ .operator o :: r.tokens

def tree {c : Category} : Phrase c → Expr
  | number x => .num x
  | name n => .var n
  | group p => p.tree
  | alone _ p => p.tree
  | binary o _ l r => l.tree.join o r.tree

variable {c : Category}

theorem balanced_tokens (p : Phrase c) : Balanced p.tokens := by
  induction p with
  | number x => exact .cons (nesting_cons_number x []) .nil
  | name n => exact .cons (nesting_cons_name n []) .nil
  | group p ih => exact ih.group
  | alone hc p ih => exact ih
  | binary o ho l r ihl ihr => exact ihl.append (.cons (nesting_cons_operator o []) ihr)

/-- An operator that is in no parentheses binds at least as tightly as the category says. -/
theorem level_le_of_append (p : Phrase c) {ts us : List Token} {o : Operator}
    (h : p.tokens = ts ++ .operator o :: us) (hn : nesting ts = 0) : c.level ≤ o.precedence := by
  induction p generalizing ts us with
  | number x | name n =>
    cases ts <;> simp [tokens] at h
  | group p ih =>
    cases ts with
    | nil => simp [tokens] at h
    | cons t ts =>
      obtain ⟨rfl, hp⟩ := List.cons.inj h
      rw [nesting_cons_opening] at hn
      rcases List.prefix_concat_iff.mp ⟨_, hp.symm⟩ with rfl | hts
      · simp at hp
      · have := p.balanced_tokens.nonneg ts hts
        omega
  | alone hc p ih =>
    have ht := Category.level_tighter hc
    have := ih h hn
    omega
  | @binary c o' ho l r ihl ihr =>
    have hlevel := Operator.level_category ho
    rcases List.append_eq_append_iff.mp h with ⟨as, rfl, has⟩ | ⟨as, hl, has⟩
    · cases as with
      | nil =>
        cases (List.cons.inj has).1
        exact Nat.le_of_eq hlevel
      | cons a as =>
        obtain ⟨rfl, hr⟩ := List.cons.inj has
        have ht := Category.level_tighter (ho ▸ o'.category_ne_atom)
        have := ihr hr (by simpa [l.balanced_tokens.nesting_eq] using hn)
        omega
    · cases as with
      | nil =>
        cases (List.cons.inj has).1
        exact Nat.le_of_eq hlevel
      | cons a as =>
        obtain ⟨rfl, -⟩ := List.cons.inj has
        exact ihl hl hn

/-- The operator that joins two phrases can be found in their tokens. -/
theorem split_unique {o o' : Operator} (ho' : o'.category = c) {l l' : Phrase c}
    {r : Phrase c.tighter} {us : List Token} (hl : l.tokens <+: l'.tokens)
    (h : l.tokens ++ .operator o :: r.tokens = l'.tokens ++ .operator o' :: us) :
    l.tokens = l'.tokens ∧ o = o' ∧ r.tokens = us := by
  obtain ⟨as, has⟩ := hl
  rw [← has, List.append_assoc, List.append_cancel_left_eq] at h
  cases as with
  | nil =>
    obtain ⟨ht, hr⟩ := List.cons.inj h
    cases ht
    exact ⟨by simpa using has, rfl, hr⟩
  | cons a as =>
    obtain ⟨rfl, hr⟩ := List.cons.inj h
    have hn : nesting as = 0 := by
      have h' := l'.balanced_tokens.nesting_eq
      rw [← has] at h'
      simpa [l.balanced_tokens.nesting_eq] using h'
    have hle := r.level_le_of_append hr hn
    have ht := Category.level_tighter (ho' ▸ o'.category_ne_atom)
    have hlevel := Operator.level_category ho'
    omega

theorem tokens_alone_ne_binary (p : Phrase c.tighter) {o : Operator} (ho : o.category = c)
    (l : Phrase c) (r : Phrase c.tighter) : p.tokens ≠ (binary o ho l r).tokens := by
  intro h
  have hle := p.level_le_of_append h l.balanced_tokens.nesting_eq
  have ht := Category.level_tighter (ho ▸ o.category_ne_atom)
  have hlevel := Operator.level_category ho
  omega

/-- The grammar is unambiguous. -/
theorem eq_of_tokens_eq (p q : Phrase c) (h : p.tokens = q.tokens) : p = q := by
  induction p with
  | number x =>
    cases q with
    | number y => simp_all [tokens]
    | name n | group q => simp [tokens] at h
    | alone hc q => exact absurd rfl hc
    | binary o ho l r => exact absurd ho o.category_ne_atom
  | name n =>
    cases q with
    | name m => simp_all [tokens]
    | number y | group q => simp [tokens] at h
    | alone hc q => exact absurd rfl hc
    | binary o ho l r => exact absurd ho o.category_ne_atom
  | group p ih =>
    cases q with
    | number y | name n => simp [tokens] at h
    | group q => rw [ih q (by simpa [tokens] using h)]
    | alone hc q => exact absurd rfl hc
    | binary o ho l r => exact absurd ho o.category_ne_atom
  | alone hc p ih =>
    cases q with
    | number y | name n | group q => exact absurd rfl hc
    | alone hc' q => rw [ih q h]
    | binary o ho l r => exact absurd h (p.tokens_alone_ne_binary ho l r)
  | binary o ho l r ihl ihr =>
    cases q with
    | number y | name n | group q => exact absurd ho o.category_ne_atom
    | alone hc q => exact absurd h.symm (q.tokens_alone_ne_binary ho l r)
    | binary o' ho' l' r' =>
      have hs : l.tokens = l'.tokens ∧ o = o' ∧ r.tokens = r'.tokens := by
        rcases List.append_eq_append_iff.mp h with ⟨as, hl, -⟩ | ⟨as, hl, -⟩
        · exact split_unique ho' ⟨as, hl.symm⟩ h
        · obtain ⟨hl, ho, hr⟩ := split_unique ho ⟨as, hl.symm⟩ h.symm
          exact ⟨hl.symm, ho.symm, hr.symm⟩
      obtain ⟨hl, rfl, hr⟩ := hs
      rw [ihl l' hl, ihr r' hr]

end Phrase

end Formula
