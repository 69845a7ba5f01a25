import Formula.Proofs.Segments
import Formula.Proofs.Stray

/-!
# The pattern of a piece

A `Pattern` takes the beginning of a text. Where it has a choice it tries one way after the other
and falls back on the next if the rest of the pattern then fails: `Pattern.all` lists everything
that it can take, in the order of the trials, and `Pattern.first?` is what it takes. The pattern of a
piece is blanks and then a numeral, a name, a symbol, or any one character that is no blank. What it
takes is the lexeme that is read, and a stray character if none is
(`Pattern.first?_piece_of_scan?`, `Pattern.first?_piece_of_stray`), so it takes something exactly if
the text is not all blank (`Pattern.first?_piece_eq_none_iff`).
-/

namespace Formula

open Text

/-- How a text may begin, with groups that are named. The longer one of two ways is tried first by
`many` and `maybe`, and the left one by `alt`. -/
inductive Pattern (γ : Type) where
  | char (p : Char → Bool)
  | many (p : Char → Bool)
  | maybe (a : Pattern γ)
  | seq (a b : Pattern γ)
  | alt (a b : Pattern γ)
  | group (g : γ) (a : Pattern γ)

namespace Pattern

/-- What a group took, and how many characters stand before it. -/
structure Capture (γ : Type) where
  group : γ
  offset : Nat
  text : List Char
deriving DecidableEq

/-- The part of a text that a pattern took, what its groups took of it, and the rest. -/
structure Match (γ : Type) where
  text : List Char
  captures : List (Capture γ)
  rest : List Char
deriving DecidableEq

variable {γ : Type}

namespace Match

def later (n : Nat) (x : Capture γ) : Capture γ := { x with offset := n + x.offset }

def append (m n : Match γ) : Match γ :=
  ⟨m.text ++ n.text, m.captures ++ n.captures.map (later m.text.length), n.rest⟩

def capture (g : γ) (m : Match γ) : Match γ := { m with captures := m.captures ++ [⟨g, 0, m.text⟩] }

theorem append_empty (m : Match γ) (cs : List Char) : append ⟨[], [], cs⟩ m = m := by
  have hlater : later 0 = (id : Capture γ → Capture γ) := funext fun x => by simp [later]
  simp [append, hlater]

end Match

/-- A text cut after some of the characters of a class that it begins with, the longest part first.
-/
def splits (p : Char → Bool) : List Char → List (List Char × List Char)
  | [] => [([], [])]
  | c :: cs => (if p c then (splits p cs).map fun s => (c :: s.1, s.2) else []) ++ [([], c :: cs)]

/-- Everything that a pattern can take, in the order of the trials. -/
def all : Pattern γ → List Char → List (Match γ)
  | char _, [] => []
  | char p, c :: cs => if p c then [⟨[c], [], cs⟩] else []
  | many p, cs => (splits p cs).map fun s => ⟨s.1, [], s.2⟩
  | maybe a, cs => a.all cs ++ [⟨[], [], cs⟩]
  | seq a b, cs => (a.all cs).flatMap fun m => (b.all m.rest).map m.append
  | alt a b, cs => a.all cs ++ b.all cs
  | group g a, cs => (a.all cs).map (Match.capture g)

def first? (a : Pattern γ) (cs : List Char) : Option (Match γ) := (a.all cs).head?

section First

variable {a b : Pattern γ} {p : Char → Bool} {cs : List Char} {m n : Match γ}

theorem head?_splits (p : Char → Bool) (cs : List Char) :
    (splits p cs).head? = some (cs.takeWhile p, cs.dropWhile p) := by
  induction cs with
  | nil => rfl
  | cons c cs ih =>
    by_cases hc : p c = true
    · simp [splits, hc, ih]
    · simp [splits, hc]

@[simp] theorem first?_char_cons (c : Char) (cs : List Char) :
    (char p : Pattern γ).first? (c :: cs) = if p c then some ⟨[c], [], cs⟩ else none := by
  rw [first?, all]
  by_cases hc : p c = true
  · simp [hc]
  · simp [hc]

@[simp] theorem first?_many (p : Char → Bool) (cs : List Char) :
    (many p : Pattern γ).first? cs = some ⟨cs.takeWhile p, [], cs.dropWhile p⟩ := by
  rw [first?, all, List.head?_map, head?_splits]
  rfl

theorem first?_maybe (a : Pattern γ) (cs : List Char) :
    (maybe a).first? cs = some ((a.first? cs).getD ⟨[], [], cs⟩) := by
  rw [first?, first?, all, List.head?_append]
  cases (a.all cs).head? <;> rfl

theorem first?_alt (a b : Pattern γ) (cs : List Char) :
    (alt a b).first? cs = (a.first? cs).or (b.first? cs) := List.head?_append

theorem first?_group (g : γ) (a : Pattern γ) (cs : List Char) :
    (group g a).first? cs = (a.first? cs).map (Match.capture g) := List.head?_map

theorem first?_seq (ha : a.first? cs = some m) (hb : b.first? m.rest = some n) :
    (seq a b).first? cs = some (m.append n) := by
  obtain ⟨ms, hms⟩ := List.head?_eq_some_iff.mp ha
  rw [first?, all, hms, List.flatMap_cons, List.head?_append, List.head?_map]
  change ((b.first? m.rest).map m.append).or _ = _
  rw [hb]
  rfl

theorem first?_eq_none_iff : a.first? cs = none ↔ a.all cs = [] := List.head?_eq_none_iff

theorem first?_seq_eq_none_iff :
    (seq a b).first? cs = none ↔ ∀ m ∈ a.all cs, b.first? m.rest = none := by
  simp only [first?_eq_none_iff, all, List.flatMap_eq_nil_iff, List.map_eq_nil_iff]

theorem first?_seq_eq_none (ha : a.first? cs = none) : (seq a b).first? cs = none := by
  rw [first?_seq_eq_none_iff, first?_eq_none_iff.mp ha]
  exact List.forall_mem_nil _

theorem first?_char_seq (b : Pattern γ) (c : Char) (cs : List Char) :
    (seq (char p) b).first? (c :: cs) =
      if p c then (b.first? cs).map (Match.append ⟨[c], [], cs⟩) else none := by
  rw [first?, all, all]
  by_cases hc : p c = true
  · rw [if_pos hc, if_pos hc, List.flatMap_singleton, List.head?_map]
    rfl
  · rw [if_neg hc, if_neg hc]
    rfl

/-- If what follows fails after a part that may be missing, it is tried without that part. -/
theorem first?_maybe_seq (a b : Pattern γ) (cs : List Char) :
    (seq (maybe a) b).first? cs = ((seq a b).first? cs).or (b.first? cs) := by
  have hempty : Match.append ⟨[], [], cs⟩ = (id : Match γ → Match γ) :=
    funext fun m => m.append_empty cs
  rw [first?, first?, all, all, all, List.flatMap_append, List.head?_append, List.flatMap_singleton,
    hempty, List.map_id]
  rfl

end First

inductive Group where
  | lexeme (k : LexemeClass)
  | stray
deriving DecidableEq

def digits : Pattern Group := .seq (.char Char.isDigit) (.many Char.isDigit)

def exponent : Pattern Group :=
  .seq (.char fun c => c = 'e' ∨ c = 'E') (.seq (.maybe (.char fun c => c = '+' ∨ c = '-')) digits)

def mantissa : Pattern Group :=
  .alt (.seq digits (.seq (.maybe (.char (· = '.'))) (.many Char.isDigit)))
    (.seq (.char (· = '.')) digits)

def numeral : Pattern Group := .seq mantissa (.maybe exponent)

def name : Pattern Group := .seq (.char startsName) (.many isWord)

def symbol : Pattern Group := .char (· ∈ ['(', ')', '^', '+', '-', '*', '/'])

def lexeme : Pattern Group :=
  .alt (.group (.lexeme .numeral) numeral)
    (.alt (.group (.lexeme .name) name) (.group (.lexeme .symbol) symbol))

/-- Blanks, and then a lexeme or else a single character. -/
def piece : Pattern Group :=
  .seq (.many isBlank) (.alt lexeme (.group .stray (.char (!isBlank ·))))

theorem first?_digits (cs : List Char) : digits.first? cs =
    if (splitDigits cs).1 = [] then none
    else some ⟨(splitDigits cs).1, [], (splitDigits cs).2⟩ := by
  cases cs with
  | nil => rfl
  | cons c cs =>
    by_cases hc : c.isDigit
    · simp [digits, first?_char_seq, splitDigits, hc, Match.append]
    · simp [digits, first?_char_seq, splitDigits, hc]

theorem first?_signed (cs : List Char) :
    (seq (.maybe (.char fun c => c = '+' ∨ c = '-')) digits).first? cs =
      if (splitDigits (splitSign cs).2).1 = [] then none
      else some ⟨(splitSign cs).1.toList ++ (splitDigits (splitSign cs).2).1, [],
        (splitDigits (splitSign cs).2).2⟩ := by
  rw [first?_maybe_seq]
  cases cs with
  | nil => rfl
  | cons c cs =>
    rw [first?_char_seq]
    by_cases hc : c = '+' ∨ c = '-'
    · have hdigits : digits.first? (c :: cs) = none := by
        rcases hc with rfl | rfl <;> rfl
      have hsplit : splitSign (c :: cs) = (some c, cs) := by simp [splitSign, hc]
      rw [hdigits, hsplit, if_pos (decide_eq_true hc), first?_digits, Option.or_none]
      by_cases hnil : (splitDigits cs).1 = []
      · simp [hnil]
      · simp [hnil, Match.append]
    · have hsplit : splitSign (c :: cs) = (none, c :: cs) := by simp [splitSign, hc]
      rw [if_neg (by simpa using hc), Option.none_or, first?_digits, hsplit]
      rfl

theorem first?_exponent (cs : List Char) :
    exponent.first? cs = (Exponent.scan? cs).map fun x => ⟨x.1.text, [], x.2⟩ := by
  cases cs with
  | nil => rfl
  | cons c cs =>
    rw [exponent, first?_char_seq, first?_signed]
    simp only [Exponent.scan?]
    by_cases hc : c = 'e' ∨ c = 'E'
    · by_cases hnil : (splitDigits (splitSign cs).2).1 = []
      · simp [hnil]
      · simp [hc, hnil, Match.append, Exponent.text]
    · simp [hc]

theorem first?_fraction {cs : List Char} (hcs : ∀ c ∈ cs.head?, c.isDigit = false) :
    (seq (.maybe (.char (· = '.'))) (.many Char.isDigit) : Pattern Group).first? cs =
      some (if cs.head? = some '.' then
          ⟨'.' :: (splitDigits cs.tail).1, [], (splitDigits cs.tail).2⟩
        else ⟨[], [], cs⟩) := by
  rw [first?_maybe_seq]
  cases cs with
  | nil => rfl
  | cons c cs =>
    rw [first?_char_seq]
    by_cases hc : c = '.'
    · simp [hc, Match.append, splitDigits]
    · have hdigit : c.isDigit = false := hcs c rfl
      simp [hc, hdigit]

theorem first?_mantissa (cs : List Char) :
    mantissa.first? cs = (Numeral.scanMantissa? cs).map fun x => ⟨x.1.text, [], x.2⟩ := by
  rw [mantissa, first?_alt, Numeral.scanMantissa?]
  by_cases hnil : (splitDigits cs).1 = []
  · have hdigits : digits.first? cs = none := by rw [first?_digits, if_pos hnil]
    have hafter : (splitDigits cs).2 = cs := by
      have happend := splitDigits_append cs
      rwa [hnil, List.nil_append] at happend
    rw [first?_seq_eq_none hdigits, Option.none_or]
    simp only [hnil, hafter]
    cases cs with
    | nil => rfl
    | cons c cs =>
      rw [first?_char_seq, first?_digits]
      by_cases hc : c = '.'
      · subst hc
        by_cases hfraction : (splitDigits cs).1 = []
        · simp [hfraction]
        · simp [hfraction, Match.append, Numeral.text]
      · simp [hc]
  · have hdigits : digits.first? cs = some ⟨(splitDigits cs).1, [], (splitDigits cs).2⟩ := by
      rw [first?_digits, if_neg hnil]
    have hfraction := first?_fraction (not_isDigit_head?_splitDigits cs)
    rw [first?_seq hdigits hfraction, Option.some_or]
    cases hafter : (splitDigits cs).2 with
    | nil => simp [hafter, hnil, Match.append, Numeral.text]
    | cons c after =>
      by_cases hc : c = '.'
      · subst hc
        simp [hafter, hnil, Match.append, Numeral.text]
      · simp [hafter, hnil, hc, Match.append, Numeral.text]

theorem first?_numeral (cs : List Char) :
    numeral.first? cs = (Numeral.scan? cs).map fun x => ⟨x.1.text, [], x.2⟩ := by
  have hmantissa := first?_mantissa cs
  rw [numeral, Numeral.scan?]
  cases hscan : Numeral.scanMantissa? cs with
  | none =>
    rw [hscan] at hmantissa
    exact first?_seq_eq_none hmantissa
  | some x =>
    obtain ⟨n, after⟩ := x
    rw [hscan] at hmantissa
    obtain ⟨-, hexponent⟩ := Numeral.text_append_of_scanMantissa? hscan
    rw [first?_seq hmantissa (first?_maybe exponent after), first?_exponent]
    cases hx : Exponent.scan? after with
    | none => simp [hx, Match.append]
    | some y => simp [hx, Match.append, Numeral.text, hexponent]

/-- The beginning of an exponent is given back if there is no digit in it. -/
example : numeral.first? ['1', '.', 'e', '+'] = some ⟨['1', '.'], [], ['e', '+']⟩ := by decide

theorem first?_name (cs : List Char) :
    name.first? cs = (Lexeme.scanName? cs).map fun x => ⟨x.1.text, [], x.2⟩ := by
  cases cs with
  | nil => rfl
  | cons c cs =>
    rw [name, first?_char_seq, first?_many, Lexeme.scanName?]
    by_cases hc : startsName c = true
    · simp [hc, Match.append, Lexeme.text]
    · simp [hc]

theorem first?_symbol (cs : List Char) :
    symbol.first? cs = (Lexeme.scanSymbol? cs).map fun x => ⟨x.1.text, [], x.2⟩ := by
  cases cs with
  | nil => rfl
  | cons c cs =>
    rw [symbol, first?_char_cons, Lexeme.scanSymbol?]
    cases hl : Lexeme.ofSymbol? c with
    | none =>
      have hc := Lexeme.ofSymbol?_eq_none_iff.mp hl
      rw [if_neg (by simpa using hc)]
      rfl
    | some l =>
      have hc : c ∈ ['(', ')', '^', '+', '-', '*', '/'] := by
        by_contra hc
        rw [Lexeme.ofSymbol?_eq_none_iff.mpr hc] at hl
        cases hl
      rw [if_pos (decide_eq_true hc)]
      simp [Lexeme.text_of_ofSymbol? hl]

def Match.ofLexeme (l : Lexeme) (rest : List Char) : Match Group :=
  ⟨l.text, [⟨.lexeme (LexemeClass.ofLexeme l), 0, l.text⟩], rest⟩

theorem ofLexeme_of_scanName? {cs rest : List Char} {l : Lexeme}
    (h : Lexeme.scanName? cs = some (l, rest)) : LexemeClass.ofLexeme l = .name := by
  cases cs with
  | nil => cases h
  | cons c cs =>
    obtain ⟨-, hl⟩ := Option.ite_none_right_eq_some.mp h
    cases hl
    rfl

theorem ofLexeme_of_scanSymbol? {cs rest : List Char} {l : Lexeme}
    (h : Lexeme.scanSymbol? cs = some (l, rest)) : LexemeClass.ofLexeme l = .symbol := by
  cases cs with
  | nil => cases h
  | cons c cs =>
    obtain ⟨l', hl, he⟩ := Option.map_eq_some_iff.mp h
    cases he
    unfold Lexeme.ofSymbol? at hl
    split at hl
    · cases hl
      rfl
    · split at hl
      · cases hl
        rfl
      · obtain ⟨o, -, rfl⟩ := Option.map_eq_some_iff.mp hl
        rfl

/-- The three ways to take a lexeme are tried in the order in which a lexeme is read. -/
theorem first?_lexeme (cs : List Char) :
    lexeme.first? cs = (Lexeme.scan? cs).map fun x => Match.ofLexeme x.1 x.2 := by
  rw [lexeme, first?_alt, first?_alt, first?_group, first?_group, first?_group, first?_numeral,
    first?_name, first?_symbol, Lexeme.scan?]
  cases Numeral.scan? cs with
  | some x => rfl
  | none =>
    cases hname : Lexeme.scanName? cs with
    | some x => simp [Match.capture, Match.ofLexeme, ofLexeme_of_scanName? hname]
    | none =>
      cases hsymbol : Lexeme.scanSymbol? cs with
      | some x => simp [Match.capture, Match.ofLexeme, ofLexeme_of_scanSymbol? hsymbol]
      | none => rfl

theorem first?_piece_of_scan? {cs rest : List Char} {l : Lexeme}
    (h : Lexeme.scan? (cs.dropWhile isBlank) = some (l, rest)) : piece.first? cs =
      some (Match.append ⟨cs.takeWhile isBlank, [], cs.dropWhile isBlank⟩
        (Match.ofLexeme l rest)) := by
  refine first?_seq (first?_many isBlank cs) ?_
  rw [first?_alt, first?_lexeme, h]
  rfl

theorem first?_piece_of_stray {cs rest : List Char} {c : Char}
    (hd : cs.dropWhile isBlank = c :: rest) (hs : Lexeme.scan? (c :: rest) = none) :
    piece.first? cs = some (Match.append ⟨cs.takeWhile isBlank, [], c :: rest⟩
      ⟨[c], [⟨.stray, 0, [c]⟩], rest⟩) := by
  have hc : isBlank c = false := by
    have hnot := List.head?_dropWhile_not isBlank cs
    rwa [hd] at hnot
  rw [← hd]
  refine first?_seq (first?_many isBlank cs) ?_
  rw [hd, first?_alt, first?_lexeme, hs, first?_group, first?_char_cons, if_pos (by simp [hc])]
  rfl

theorem append_of_mem_splits {p : Char → Bool} {cs : List Char} {x : List Char × List Char}
    (hx : x ∈ splits p cs) : x.1 ++ x.2 = cs := by
  induction cs generalizing x with
  | nil =>
    obtain rfl := List.mem_singleton.mp hx
    rfl
  | cons c cs ih =>
    rcases List.mem_append.mp hx with hx | hx
    · by_cases hc : p c = true
      · rw [if_pos hc] at hx
        obtain ⟨y, hy, rfl⟩ := List.mem_map.mp hx
        exact congrArg (c :: ·) (ih hy)
      · rw [if_neg hc] at hx
        cases hx
    · obtain rfl := List.mem_singleton.mp hx
      rfl

theorem first?_piece_of_blank {cs : List Char} (hcs : ∀ c ∈ cs, isBlank c = true) :
    piece.first? cs = none := by
  rw [piece, first?_seq_eq_none_iff]
  intro m hm
  obtain ⟨x, hx, rfl⟩ := List.mem_map.mp hm
  have hrest : ∀ c ∈ x.2, isBlank c = true := fun c hc =>
    hcs c (append_of_mem_splits hx ▸ List.mem_append_right x.1 hc)
  have hscan : Lexeme.scan? ([] ++ x.2) = none :=
    scan?_append_eq_none (fun c hc => hrest c (List.mem_of_mem_head? hc)) rfl
  rw [first?_alt, first?_lexeme, ← List.nil_append x.2, hscan, first?_group, List.nil_append]
  cases hx : x.2 with
  | nil => rfl
  | cons c rest =>
    have hc : isBlank c = true := hrest c (hx ▸ List.mem_cons_self)
    rw [first?_char_cons, if_neg (by simp [hc])]
    rfl

/-- The pattern takes something unless there are only blanks. -/
theorem first?_piece_eq_none_iff {cs : List Char} :
    piece.first? cs = none ↔ ∀ c ∈ cs, isBlank c = true := by
  refine ⟨fun h => ?_, first?_piece_of_blank⟩
  cases hd : cs.dropWhile isBlank with
  | nil => exact List.dropWhile_eq_nil_iff.mp hd
  | cons c rest =>
    cases hs : Lexeme.scan? (c :: rest) with
    | none =>
      rw [first?_piece_of_stray hd hs] at h
      cases h
    | some x =>
      rw [first?_piece_of_scan? (hd.symm ▸ hs)] at h
      cases h

end Pattern

end Formula
