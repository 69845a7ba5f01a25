import Formula.Expr.Render
import Formula.Proofs.Nesting

/-!
# Scopes of operators

The place `i` of a list of tokens is before the token with that index; the last place is the end of
the list. The scope of an operator ends before the first later token of the same group of
parentheses that is an operator of at most its precedence, or else before the parenthesis that
closes the group, or else at the end (`endsScope_of_getElem?_reach`, `nesting_take_reach`,
`endsScope_of_lt_reach`). Scopes are defined for every order of tokens, whether a formula is well
formed or not, and without regard to what the parser does with it.
-/

namespace Formula

namespace Token

/-- Whether a token in the group of an operator ends its scope. -/
def endsScope (o : Operator) : Token → Bool
  | operator next => next.precedence ≤ o.precedence
  | closing => true
  | _ => false

def depthAfter (depth : Nat) : Token → Nat
  | opening => depth + 1
  | closing => depth - 1
  | _ => depth

def isOperand : Token → Bool
  | number _ | name _ => true
  | _ => false

def isOperator : Token → Bool
  | operator _ => true
  | _ => false

def leaf? : Token → Option Expr.Item
  | number x => some (.number x)
  | name n => some (.name n)
  | _ => none

def symbol? : Token → Option String
  | operator o => some o.text
  | _ => none

end Token

/-- How many tokens of a list lie in the scope of an operator before it, if the list begins `depth`
parentheses deeper than the operator stands. -/
def reach (o : Operator) : Nat → List Token → Nat
  | _, [] => 0
  | depth, t :: ts =>
    if depth = 0 ∧ t.endsScope o then 0 else reach o (t.depthAfter depth) ts + 1

/-- An operator, and the place where its scope ends. -/
structure Scope where
  operator : Operator
  stop : Nat
deriving DecidableEq, Repr

namespace Scope

def later (s : Scope) : Scope := { s with stop := s.stop + 1 }

def ending (o : Operator) : Scope := ⟨o, 0⟩

end Scope

def scopesFrom (place : Nat) : List Token → List Scope
  | [] => []
  | .operator o :: ts => ⟨o, place + 1 + reach o 0 ts⟩ :: scopesFrom (place + 1) ts
  | _ :: ts => scopesFrom (place + 1) ts

def scopes (ts : List Token) : List Scope := scopesFrom 0 ts

def endedBy (j : Nat) (ss : List Scope) : Nat := ss.countP (·.stop ≤ j)

/-- What stands before the next place when every operator is put off until its scope ends: the
operators whose scope ends at the place `j`, the one read last first, and then the operand there. -/
def itemsAt (ss : List Scope) (ts : List Token) (j : Nat) : List Expr.Item :=
  (ss.filter (·.stop = j)).reverse.map (fun s => .operator s.operator.text) ++
    (ts[j]?.bind Token.leaf?).toList

/-- The operands in order, every operator right before the token that ends its scope. -/
def arrange (ss : List Scope) (ts : List Token) : List Expr.Item :=
  (List.range (ts.length + 1)).flatMap (itemsAt ss ts)

def arrangement (ts : List Token) : List Expr.Item := arrange (scopes ts) ts

theorem endedBy_append (j : Nat) (ss ss' : List Scope) :
    endedBy j (ss ++ ss') = endedBy j ss + endedBy j ss' := List.countP_append

theorem scopesFrom_succ (place : Nat) (ts : List Token) :
    scopesFrom (place + 1) ts = (scopesFrom place ts).map Scope.later := by
  induction ts generalizing place with
  | nil => rfl
  | cons t ts ih =>
    cases t with
    | operator o =>
      simp only [scopesFrom, List.map_cons, ih (place + 1), Scope.later]
      congr 2
      omega
    | number x | name n | opening | closing => exact ih (place + 1)

theorem scopes_cons_operator (o : Operator) (ts : List Token) :
    scopes (.operator o :: ts) = ⟨o, reach o 0 ts + 1⟩ :: (scopes ts).map Scope.later := by
  simp only [scopes, scopesFrom, scopesFrom_succ, Nat.zero_add, Nat.add_comm 1]

theorem scopes_cons {t : Token} (h : t.isOperator = false) (ts : List Token) :
    scopes (t :: ts) = (scopes ts).map Scope.later := by
  cases t with
  | operator o => cases h
  | number x | name n | opening | closing => exact scopesFrom_succ 0 ts

theorem length_scopes (ts : List Token) : (scopes ts).length = ts.countP Token.isOperator := by
  induction ts with
  | nil => rfl
  | cons t ts ih =>
    cases ht : t.isOperator with
    | false => rw [scopes_cons ht, List.length_map, ih, List.countP_cons_of_neg (by simp [ht])]
    | true =>
      cases t with
      | operator o =>
        rw [scopes_cons_operator, List.length_cons, List.length_map, ih,
          List.countP_cons_of_pos ht]
      | number x | name n | opening | closing => cases ht

theorem reach_le_length (o : Operator) (depth : Nat) (ts : List Token) :
    reach o depth ts ≤ ts.length := by
  induction ts generalizing depth with
  | nil => exact Nat.le_refl _
  | cons t ts ih =>
    rw [reach]
    split
    · exact Nat.zero_le _
    · exact Nat.succ_le_succ (ih _)

theorem endsScope_of_getElem?_reach {o : Operator} {depth : Nat} {t : Token} {ts : List Token}
    (h : ts[reach o depth ts]? = some t) : t.endsScope o = true := by
  induction ts generalizing depth with
  | nil => simp at h
  | cons u ts ih =>
    rw [reach] at h
    split at h
    · rename_i hu
      rw [List.getElem?_cons_zero] at h
      cases h
      exact hu.2
    · exact ih h

theorem depthAfter_eq {o : Operator} {depth : Nat} {t : Token}
    (h : ¬ (depth = 0 ∧ t.endsScope o = true)) :
    (t.depthAfter depth : Int) = depth + nesting [t] := by
  cases t with
  | number x | name n | operator o' | opening => simp [Token.depthAfter]
  | closing =>
    have hdepth : depth ≠ 0 := fun hd => h ⟨hd, rfl⟩
    simp [Token.depthAfter]
    omega

/-- The token that ends a scope stands in the group of the operator. -/
theorem nesting_take_reach {o : Operator} {depth : Nat} {t : Token} {ts : List Token}
    (h : ts[reach o depth ts]? = some t) : depth + nesting (ts.take (reach o depth ts)) = 0 := by
  induction ts generalizing depth with
  | nil => simp at h
  | cons u ts ih =>
    rw [reach] at h ⊢
    by_cases hu : depth = 0 ∧ u.endsScope o = true
    · simp [hu]
    · rw [if_neg hu] at h ⊢
      have hrest := ih h
      rw [depthAfter_eq hu] at hrest
      rw [List.take_succ_cons, nesting_cons]
      omega

theorem endsScope_of_lt_reach {o : Operator} {depth i : Nat} {t : Token} {ts : List Token}
    (hi : i < reach o depth ts) (ht : ts[i]? = some t) (hn : depth + nesting (ts.take i) = 0) :
    t.endsScope o = false := by
  induction ts generalizing depth i with
  | nil => cases ht
  | cons u ts ih =>
    rw [reach] at hi
    by_cases hu : depth = 0 ∧ u.endsScope o = true
    · rw [if_pos hu] at hi
      cases hi
    · rw [if_neg hu] at hi
      cases i with
      | zero =>
        cases ht
        have hdepth : depth = 0 := by simpa using hn
        exact eq_false_of_ne_true fun he => hu ⟨hdepth, he⟩
      | succ i =>
        apply ih (Nat.lt_of_succ_lt_succ hi) (by simpa using ht)
        rw [List.take_succ_cons, nesting_cons] at hn
        rw [depthAfter_eq hu]
        omega

/-- The places where scopes can end: before an operator or a closing parenthesis, and the end. -/
def IsStop (ts : List Token) (j : Nat) : Prop :=
  j ≤ ts.length ∧ ∀ t, ts[j]? = some t → t.isOperator ∨ t = .closing

theorem IsStop.succ {t : Token} {ts : List Token} {j : Nat} (h : IsStop ts j) :
    IsStop (t :: ts) (j + 1) :=
  ⟨Nat.succ_le_succ h.1, fun u hu => h.2 u (by simpa using hu)⟩

theorem isStop_reach (o : Operator) (depth : Nat) (ts : List Token) :
    IsStop ts (reach o depth ts) := by
  refine ⟨reach_le_length o depth ts, fun t ht => ?_⟩
  have he := endsScope_of_getElem?_reach ht
  cases t with
  | operator o' => exact Or.inl rfl
  | closing => exact Or.inr rfl
  | number x | name n | opening => cases he

theorem isStop_of_mem_scopes {ts : List Token} {s : Scope} (h : s ∈ scopes ts) :
    IsStop ts s.stop := by
  induction ts generalizing s with
  | nil => cases h
  | cons t ts ih =>
    cases ht : t.isOperator with
    | false =>
      rw [scopes_cons ht] at h
      obtain ⟨s', hs', rfl⟩ := List.mem_map.mp h
      exact (ih hs').succ
    | true =>
      cases t with
      | operator o =>
        rw [scopes_cons_operator] at h
        rcases List.mem_cons.mp h with rfl | h
        · exact (isStop_reach o 0 ts).succ
        · obtain ⟨s', hs', rfl⟩ := List.mem_map.mp h
          exact (ih hs').succ
      | number x | name n | opening | closing => cases ht

namespace Scope

/-- The scopes of `os`, the last of them first, which end here, amid scopes that end later. -/
def schedule (os : List Operator) (ss ss' : List Scope) : List Scope :=
  ss.map later ++ (os.map ending).reverse ++ ss'.map later

variable (os : List Operator) (ss ss' : List Scope) (t : Token) (ts : List Token)

theorem length_schedule : (schedule os ss ss').length = os.length + (ss ++ ss').length := by
  simp [schedule]
  omega

theorem endedBy_zero_schedule : endedBy 0 (schedule os ss ss') = os.length := by
  have hlater (rs : List Scope) : endedBy 0 (rs.map later) = 0 := by simp [endedBy, later]
  have hos : endedBy 0 (os.map ending).reverse = os.length := by simp [endedBy, ending]
  rw [schedule, endedBy_append, endedBy_append, hos, hlater, hlater, Nat.zero_add, Nat.add_zero]

theorem endedBy_succ_schedule (j : Nat) :
    endedBy (j + 1) (schedule os ss ss') = os.length + endedBy j (ss ++ ss') := by
  have hlater (rs : List Scope) : endedBy (j + 1) (rs.map later) = endedBy j rs := by
    simp [endedBy, later, List.countP_map, Function.comp_def]
  have hos : endedBy (j + 1) (os.map ending).reverse = os.length := by simp [endedBy, ending]
  rw [schedule, endedBy_append, endedBy_append, endedBy_append, hos, hlater, hlater]
  omega

theorem filter_stop_ending : (os.map ending).filter (·.stop = 0) = os.map ending := by
  simp [ending]

theorem itemsAt_zero_schedule : itemsAt (schedule os ss ss') (t :: ts) 0 =
    os.map (fun o => .operator o.text) ++ t.leaf?.toList := by
  have hlater (rs : List Scope) : (rs.map later).filter (·.stop = 0) = [] := by simp [later]
  simp [itemsAt, schedule, filter_stop_ending, hlater, Function.comp_def, ending]

theorem itemsAt_succ_schedule (j : Nat) :
    itemsAt (schedule os ss ss') (t :: ts) (j + 1) = itemsAt (ss ++ ss') ts j := by
  have hlater (rs : List Scope) :
      (rs.map later).filter (·.stop = j + 1) = (rs.filter (·.stop = j)).map later := by
    simp [List.filter_map, later, Function.comp_def]
  have hos : (os.map ending).reverse.filter (·.stop = j + 1) = [] := by simp [ending]
  simp [itemsAt, schedule, hos, hlater, Function.comp_def, later]

/-- What stands before a token and the token itself come first, and then the rest. -/
theorem arrange_schedule : arrange (schedule os ss ss') (t :: ts) =
    os.map (fun o => .operator o.text) ++ t.leaf?.toList ++ arrange (ss ++ ss') ts := by
  rw [arrange, List.length_cons, List.range_succ_eq_map, List.flatMap_cons, List.flatMap_map,
    itemsAt_zero_schedule]
  congr 2
  exact funext fun j => itemsAt_succ_schedule os ss ss' t ts j

theorem arrange_ending : arrange (os.map ending).reverse [] =
    os.map (fun o => .operator o.text) := by
  simp [arrange, itemsAt, filter_stop_ending, Function.comp_def, ending]

end Scope

end Formula
