import Formula.Proofs.Excess
import Formula.Proofs.Grouping
import Mathlib.Data.List.Chain

/-!
# Operands side by side

The parser does not look at what stands next to what. Tokens with balanced parentheses and one
operand more than operators are a sum of the grammar if and only if no operand stands directly after
another, where a group is an operand too (`exists_phrase_iff`). All else that is malformed is
rejected for its parentheses or its number of operands. So the parser is wrong about operands side
by side and about nothing else (`rejected_unless_juxtaposed`).
-/

namespace Formula

namespace Token

/-- Whether an operand may end with the token, a group being an operand too. -/
def endsOperand : Token → Bool
  | number _ | name _ | closing => true
  | operator _ | opening => false

def beginsOperand : Token → Bool
  | number _ | name _ | opening => true
  | operator _ | closing => false

end Token

/-- No operand stands directly after another. -/
def Separated (ts : List Token) : Prop :=
  ts.IsChain fun t u => t.endsOperand = true → u.beginsOperand = false

instance (ts : List Token) : Decidable (Separated ts) :=
  inferInstanceAs (Decidable (ts.IsChain _))

namespace Separated

variable {t u : Token} {ts us : List Token}

theorem nil : Separated [] := List.isChain_nil

theorem cons_cons_iff : Separated (t :: u :: us) ↔
    (t.endsOperand = true → u.beginsOperand = false) ∧ Separated (u :: us) :=
  List.isChain_cons_cons

theorem cons_iff (ht : t.endsOperand = false) : Separated (t :: ts) ↔ Separated ts := by
  cases ts with
  | nil => exact iff_of_true (List.isChain_singleton t) nil
  | cons u us =>
    rw [cons_cons_iff]
    simp [ht]

theorem append_cons (hu : u.beginsOperand = false) (h : Separated ts)
    (hus : Separated (u :: us)) : Separated (ts ++ u :: us) := by
  refine List.isChain_append.mpr ⟨h, hus, ?_⟩
  rintro t - v hv -
  cases hv
  exact hu

theorem excess_le (h : Separated (t :: us)) :
    excess us ≤ 1 ∧ (t.endsOperand = true → excess us ≤ 0) := by
  induction us generalizing t with
  | nil => exact ⟨Int.zero_le_ofNat 1, fun _ => Int.le_refl 0⟩
  | cons u us ih =>
    obtain ⟨hadj, hrest⟩ := cons_cons_iff.mp h
    obtain ⟨hle, hend⟩ := ih hrest
    rw [excess_cons]
    cases u with
    | number x | name n =>
      have hus := hend rfl
      rw [excess_of_isOperand rfl]
      exact ⟨by omega, fun ht => absurd (hadj ht) Bool.noConfusion⟩
    | operator o =>
      rw [excess_operator]
      exact ⟨by omega, fun _ => by omega⟩
    | opening =>
      rw [excess_opening]
      exact ⟨by omega, fun ht => absurd (hadj ht) Bool.noConfusion⟩
    | closing =>
      have hus := hend rfl
      rw [excess_closing]
      exact ⟨by omega, fun _ => by omega⟩

end Separated

namespace Phrase

variable {c : Category} {o : Operator}

theorem separated_tokens (p : Phrase c) : Separated p.tokens := by
  induction p with
  | number x | name n => exact List.isChain_singleton _
  | group p ih =>
    exact (Separated.cons_iff rfl).mpr (ih.append_cons rfl (List.isChain_singleton _))
  | alone hc p ih => exact ih
  | binary o ho l r ihl ihr => exact ihl.append_cons rfl ((Separated.cons_iff rfl).mpr ihr)

theorem excess_tokens (p : Phrase c) : excess p.tokens = 1 := by
  induction p with
  | number x | name n => rfl
  | group p ih =>
    rw [tokens, excess_cons, excess_append, excess_opening, excess_closing, ih]
    rfl
  | alone hc p ih => exact ih
  | binary o ho l r ihl ihr =>
    rw [tokens, excess_append, excess_cons, excess_operator, ihl, ihr]
    rfl

theorem exists_snoc_of_category (ho : o.category = c) (p : Phrase c) (a : Phrase .atom) :
    ∃ q : Phrase c, q.tokens = p.tokens ++ .operator o :: a.tokens := by
  obtain ⟨r, hr, -⟩ := a.exists_loosen (Category.level_le_atom c.tighter)
  exact ⟨.binary o ho p r, by rw [tokens, hr]⟩

/-- A phrase goes on with every operator that binds at least as tightly as the category says: it
joins the atom to the last of the phrases that it does not bind tighter than. -/
theorem exists_snoc (p : Phrase c) (ho : c.level ≤ o.precedence) (a : Phrase .atom) :
    ∃ q : Phrase c, q.tokens = p.tokens ++ .operator o :: a.tokens := by
  have htighter {c : Category} (hc : c ≠ .atom) (hne : o.category ≠ c)
      (hle : c.level ≤ o.precedence) : c.tighter.level ≤ o.precedence := by
    have hlevel := Operator.level_category (o := o) rfl
    have hlt : c.level ≠ o.category.level := fun h => hne (Category.level_injective h).symm
    rw [Category.level_tighter hc]
    omega
  have hatom := o.precedence_lt_atom
  induction p with
  | number x | name n | group p => omega
  | @alone c hc p ih =>
    by_cases hcategory : o.category = c
    · exact exists_snoc_of_category hcategory (.alone hc p) a
    · obtain ⟨q, hq⟩ := ih (htighter hc hcategory ho)
      exact ⟨.alone hc q, hq⟩
  | @binary c o' ho' l r ihl ihr =>
    by_cases hcategory : o.category = c
    · exact exists_snoc_of_category hcategory (.binary o' ho' l r) a
    · obtain ⟨q, hq⟩ := ihr (htighter (ho' ▸ o'.category_ne_atom) hcategory ho)
      exact ⟨.binary o' ho' l q, by simp [tokens, hq]⟩

end Phrase

/-- What stands before an operand in its group: nothing, or a phrase and the operator that joins the
operand to it. -/
inductive Frame where
  | start
  | joining (p : Phrase .sum) (o : Operator)

namespace Frame

def tokens : Frame → List Token
  | start => []
  | joining p o => p.tokens ++ [.operator o]

theorem exists_fill (f : Frame) (a : Phrase .atom) :
    ∃ q : Phrase .sum, q.tokens = f.tokens ++ a.tokens := by
  cases f with
  | start =>
    obtain ⟨q, hq, -⟩ := a.exists_loosen (Category.level_sum_le _)
    exact ⟨q, hq⟩
  | joining p o =>
    have ho := Category.level_sum_le o.category
    rw [Operator.level_category rfl] at ho
    obtain ⟨q, hq⟩ := p.exists_snoc ho a
    exact ⟨q, by simp [hq, tokens]⟩

end Frame

/-- The beginning of a well-formed text: in the innermost open group an operand is due, or a phrase
has been read. The frames of the other groups follow from the inside out. -/
inductive Beginning where
  | due (f : Frame) (outer : List Frame)
  | read (p : Phrase .sum) (outer : List Frame)

namespace Beginning

def outside : List Frame → List Token
  | [] => []
  | f :: outer => outside outer ++ f.tokens ++ [.opening]

def tokens : Beginning → List Token
  | due f outer => outside outer ++ f.tokens
  | read p outer => outside outer ++ p.tokens

def depth : Beginning → Nat
  | due _ outer | read _ outer => outer.length

def isRead : Beginning → Bool
  | due _ _ => false
  | read _ _ => true

/-- What the tokens to come must be, so that the text can be well formed, if `t` is the last token
of the beginning. -/
structure Fits (b : Beginning) (t : Token) (ts : List Token) : Prop where
  separated : Separated (t :: ts)
  endsOperand_eq : t.endsOperand = b.isRead
  closes : Closes b.depth ts
  excess_eq : excess ts = if b.isRead then 0 else 1

variable {t u : Token} {ts us : List Token}

theorem Fits.rest {b : Beginning} (h : b.Fits t (u :: us)) :
    Separated (u :: us) ∧ Closes (b.depth + nesting [u]) us :=
  ⟨(Separated.cons_cons_iff.mp h.separated).2,
    (closes_cons (Int.natCast_nonneg _) u us).mp h.closes⟩

theorem exists_step_due {f : Frame} {outer : List Frame} (h : (due f outer).Fits t (u :: us)) :
    ∃ b : Beginning, b.tokens = (due f outer).tokens ++ [u] ∧ b.Fits u us := by
  obtain ⟨hseparated, hcloses⟩ := h.rest
  have hroom := hseparated.excess_le
  have hexcess : excess [u] + excess us = 1 := by
    rw [← excess_cons]
    exact h.excess_eq
  have hoperand {a : Phrase .atom} (ha : a.tokens = [u]) (hu : u.isOperand = true)
      (hends : u.endsOperand = true) :
      ∃ b : Beginning, b.tokens = (due f outer).tokens ++ [u] ∧ b.Fits u us := by
    obtain ⟨q, hq⟩ := f.exists_fill a
    rw [ha] at hq
    rw [nesting_of_isOperand hu, Int.add_zero] at hcloses
    rw [excess_of_isOperand hu] at hexcess
    refine ⟨read q outer, by simp [tokens, hq], hseparated, hends, hcloses, ?_⟩
    change excess us = 0
    omega
  cases u with
  | number x => exact hoperand (a := .number x) rfl rfl rfl
  | name n => exact hoperand (a := .name n) rfl rfl rfl
  | operator o =>
    rw [excess_operator] at hexcess
    omega
  | opening =>
    rw [excess_opening] at hexcess
    refine ⟨due .start (f :: outer), by simp [tokens, outside, Frame.tokens], hseparated, rfl,
      hcloses, ?_⟩
    change excess us = 1
    omega
  | closing =>
    have hnone := hroom.2 rfl
    rw [excess_closing] at hexcess
    omega

theorem exists_step_read {p : Phrase .sum} {outer : List Frame}
    (h : (read p outer).Fits t (u :: us)) :
    ∃ b : Beginning, b.tokens = (read p outer).tokens ++ [u] ∧ b.Fits u us := by
  obtain ⟨hseparated, hcloses⟩ := h.rest
  have hbegins : u.beginsOperand = false :=
    (Separated.cons_cons_iff.mp h.separated).1 h.endsOperand_eq
  have hexcess : excess [u] + excess us = 0 := by
    rw [← excess_cons]
    exact h.excess_eq
  cases u with
  | number x | name n | opening => cases hbegins
  | operator o =>
    rw [excess_operator] at hexcess
    refine ⟨due (.joining p o) outer, by simp [tokens, Frame.tokens], hseparated, rfl, hcloses, ?_⟩
    change excess us = 1
    omega
  | closing =>
    rw [excess_closing] at hexcess
    cases outer with
    | nil =>
      have hnonneg : (0 : Int) ≤ 0 + -1 := hcloses.nonneg
      omega
    | cons f outer =>
      obtain ⟨q, hq⟩ := f.exists_fill (.group p)
      have hdepth : ((outer.length + 1 : Nat) : Int) + -1 = outer.length := by omega
      refine ⟨read q outer, by simp [tokens, outside, hq, Phrase.tokens], hseparated, rfl, ?_, ?_⟩
      · change Closes (((outer.length + 1 : Nat) : Int) + -1) us at hcloses
        rwa [hdepth] at hcloses
      · change excess us = 0
        omega

theorem exists_step {b : Beginning} (h : b.Fits t (u :: us)) :
    ∃ b' : Beginning, b'.tokens = b.tokens ++ [u] ∧ b'.Fits u us := by
  cases b with
  | due f outer => exact exists_step_due h
  | read p outer => exact exists_step_read h

theorem exists_phrase_nil {b : Beginning} (h : b.Fits t []) :
    ∃ p : Phrase .sum, p.tokens = b.tokens := by
  cases b with
  | due f outer =>
    have hexcess : (0 : Int) = 1 := h.excess_eq
    omega
  | read p outer =>
    have hdepth : (outer.length : Int) + 0 = 0 := h.closes.2
    have houter : outer = [] := List.length_eq_zero_iff.mp (by omega)
    exact ⟨p, by rw [houter]; rfl⟩

theorem exists_phrase {b : Beginning} (h : b.Fits t ts) :
    ∃ p : Phrase .sum, p.tokens = b.tokens ++ ts := by
  induction ts generalizing b t with
  | nil =>
    rw [List.append_nil]
    exact exists_phrase_nil h
  | cons u us ih =>
    obtain ⟨b', hb', hfits⟩ := exists_step h
    obtain ⟨p, hp⟩ := ih hfits
    exact ⟨p, by rw [hp, hb', List.append_assoc]; rfl⟩

end Beginning

theorem exists_phrase_iff {ts : List Token} : (∃ p : Phrase .sum, p.tokens = ts) ↔
    Balanced ts ∧ excess ts = 1 ∧ Separated ts := by
  constructor
  · rintro ⟨p, rfl⟩
    exact ⟨p.balanced_tokens, p.excess_tokens, p.separated_tokens⟩
  · rintro ⟨hbalanced, hexcess, hseparated⟩
    have hfits : (Beginning.due .start []).Fits .opening ts :=
      ⟨(Separated.cons_iff rfl).mpr hseparated, rfl, (closes_zero_iff ts).mpr hbalanced, hexcess⟩
    exact Beginning.exists_phrase hfits

/-- A text of lexemes whose tokens are a sum of the grammar. -/
structure WellFormed (s : String) : Prop where
  stray_eq : (read s).stray = none
  exists_phrase : ∃ p : Phrase .sum, p.tokens = (read s).tokens

theorem WellFormed.separated {s : String} (h : WellFormed s) : Separated (read s).tokens :=
  (exists_phrase_iff.mp h.exists_phrase).2.2

theorem wellFormed_iff_of_tree {s : String} {e : Expr} (h : (read s).tree = .ok e) :
    WellFormed s ↔ Separated (read s).tokens := by
  refine ⟨WellFormed.separated, fun hs => ⟨(Reading.tree_eq_ok.mp h).1, ?_⟩⟩
  obtain ⟨hbalanced, hexcess⟩ := Reading.excess_of_tree h
  exact exists_phrase_iff.mpr ⟨hbalanced, hexcess, hs⟩

/-- A text of lexemes with balanced parentheses and one operand more than operators, in which an
operand stands directly after another. -/
structure Juxtaposed (s : String) : Prop where
  stray_eq : (read s).stray = none
  balanced : Balanced (read s).tokens
  excess_eq : excess (read s).tokens = 1
  not_separated : ¬ Separated (read s).tokens

/-- A text that is not well formed is rejected, unless operands stand side by side in it while all
counts are right. An accepted text is well formed if and only if no operands do. -/
theorem rejected_unless_juxtaposed (s : String) :
    (¬ WellFormed s → ¬ Juxtaposed s → ∃ err, parse s = .error err ∧ err.source = s) ∧
    ∀ e, parse s = .ok e → (WellFormed s ↔ Separated (read s).tokens) := by
  refine ⟨fun hmalformed hjuxtaposed => ?_, fun e he => wellFormed_iff_of_tree (parse_eq_ok.mp he)⟩
  cases htree : (read s).tree with
  | ok e =>
    have hseparated : ¬ Separated (read s).tokens := fun hs =>
      hmalformed ((wellFormed_iff_of_tree htree).mpr hs)
    obtain ⟨hbalanced, hexcess⟩ := Reading.excess_of_tree htree
    exact absurd ⟨(Reading.tree_eq_ok.mp htree).1, hbalanced, hexcess, hseparated⟩ hjuxtaposed
  | error cause =>
    obtain ⟨err, herr, hsource, -⟩ := rejectedWith_of_tree htree
    exact ⟨err, herr, hsource⟩

theorem parse_juxtaposed :
    (¬ WellFormed "1 2 +" ∧ parse "1 2 +" = .ok (.bin (.num 1) "+" (.num 2))) ∧
    ¬ WellFormed "()1" ∧ parse "()1" = .ok (.num 1) := by
  have hpostfix : ¬ Separated (read "1 2 +").tokens := by decide +kernel
  have hempty : ¬ Separated (read "()1").tokens := by decide +kernel
  refine ⟨⟨fun h => hpostfix h.separated, ?_⟩, fun h => hempty h.separated, ?_⟩
  · exact parse_eq_ok_of_toOption (by decide +kernel)
  · exact parse_eq_ok_of_toOption (by decide +kernel)

theorem rejected_unless_juxtaposed_operators :
    ¬ WellFormed "1 + * 2" ∧ (∃ err, parse "1 + * 2" = .error err ∧ err.source = "1 + * 2") ∧
    parse "(x + 1) * 2" = .ok (.bin (.bin (.var "x") "+" (.num 1)) "*" (.num 2)) ∧
    WellFormed "(x + 1) * 2" := by
  have hexcess : excess (read "1 + * 2").tokens ≠ 1 := by decide +kernel
  have hmalformed : ¬ WellFormed "1 + * 2" := fun h =>
    hexcess (exists_phrase_iff.mp h.exists_phrase).2.1
  have hjuxtaposed : ¬ Juxtaposed "1 + * 2" := fun h => hexcess h.excess_eq
  have hparse : parse "(x + 1) * 2" = .ok (.bin (.bin (.var "x") "+" (.num 1)) "*" (.num 2)) :=
    parse_eq_ok_of_toOption (by decide +kernel)
  have hseparated : Separated (read "(x + 1) * 2").tokens := by decide +kernel
  exact ⟨hmalformed, (rejected_unless_juxtaposed _).1 hmalformed hjuxtaposed, hparse,
    ((rejected_unless_juxtaposed _).2 _ hparse).mpr hseparated⟩

end Formula
