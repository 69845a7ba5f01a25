import Formula.Proofs.Pattern

/-!
# Reading in rounds

A round matches the pattern of a piece at a place of the text and moves to the end of the match. The
rounds are to end at the last character that is no blank, but nothing stops them there: only the
comparison of the place with that bound ends them, and a match that fails or reaches over the bound
would break them. Neither comes about. Before the bound there is a match (`exists_match_iff`), a
round moves on, but not over the bound (`round_of_lt`), and so the rounds come to their end. They
read what `read` reads (`rounds?_eq_read`).
-/

namespace Formula

open Text Pattern

/-- The place after the last character of a text that is no blank. -/
def bound (cs : List Char) : Nat := (trimEnd cs).length

def Pattern.Match.capture? (m : Match Group) (g : Group) : Option (Capture Group) :=
  m.captures.find? (·.group = g)

def Pattern.Capture.token? (x : Capture Group) : Option Token :=
  match x.group with
  | .lexeme .numeral => (Numeral.read? x.text).map .number
  | .lexeme .name => some (.name (String.ofList x.text))
  | .lexeme .symbol =>
    match x.text with
    | [c] => (Lexeme.ofSymbol? c).map Lexeme.token
    | _ => none
  | .stray => none

/-- What one round comes to: a token and the place after it, or a stray character. A round without a
match breaks, and so does one in which no group took part or none that stands for a token. -/
inductive Round where
  | token (t : Token) (next : Nat)
  | stray (x : Stray)
  | broken

def round (cs : List Char) (position : Nat) : Round :=
  match piece.first? (cs.drop position) with
  | none => .broken
  | some m =>
    match m.capture? .stray with
    | some x =>
      match x.text with
      | [c] => .stray ⟨c, position + x.offset⟩
      | _ => .broken
    | none =>
      let captured := (m.capture? (.lexeme .numeral)).or
        ((m.capture? (.lexeme .name)).or (m.capture? (.lexeme .symbol)))
      match captured.bind Capture.token? with
      | some t => .token t (position + m.text.length)
      | none => .broken

/-- What is handed on to the parser: one token after the other, and that there are no more. -/
inductive Signal where
  | token (t : Token)
  | ended

inductive Ending where
  | bound (position : Nat)
  | stray (x : Stray)
  | broken

structure Rounds where
  signals : List Signal
  ending : Ending

/-- The rounds from a place on, if `n` of them are enough to come to an end. -/
def rounds? (cs : List Char) (position n : Nat) : Option Rounds :=
  if position < bound cs then
    match n with
    | 0 => none
    | n + 1 =>
      match round cs position with
      | .token t next =>
        (rounds? cs next n).map fun r => { r with signals := .token t :: r.signals }
      | .stray x => some ⟨[], .stray x⟩
      | .broken => some ⟨[], .broken⟩
  else some ⟨[.ended], .bound position⟩

def Reading.rounds (r : Reading) (position : Nat) : Rounds :=
  match r.stray with
  | none => ⟨r.tokens.map .token ++ [.ended], .bound position⟩
  | some x => ⟨r.tokens.map .token, .stray x⟩

namespace Pattern

variable {cs : List Char} {m : Match Group}

theorem token?_capture_lexeme {l : Lexeme} (hl : l.Valid) (n : Nat) :
    Capture.token? ⟨.lexeme (LexemeClass.ofLexeme l), n, l.text⟩ = some l.token := by
  cases l with
  | numeral a =>
    change (Numeral.read? a.text).map Token.number = _
    rw [Numeral.read?_text hl]
    rfl
  | name ds => rfl
  | operator o =>
    change (Lexeme.ofSymbol? o.symbol).map Lexeme.token = _
    rw [Lexeme.ofSymbol?_symbol]
    rfl
  | opening => rfl
  | closing => rfl

theorem exists_captures_eq (h : piece.first? cs = some m) :
    ∃ x, m.captures = [x] ∧ x.text ≠ [] := by
  cases hd : cs.dropWhile isBlank with
  | nil =>
    rw [first?_piece_of_blank (List.dropWhile_eq_nil_iff.mp hd)] at h
    cases h
  | cons c rest =>
    cases hs : Lexeme.scan? (c :: rest) with
    | none =>
      rw [first?_piece_of_stray hd hs] at h
      cases h
      exact ⟨_, rfl, List.cons_ne_nil c []⟩
    | some y =>
      rw [first?_piece_of_scan? (hd.symm ▸ hs)] at h
      cases h
      exact ⟨_, rfl, (Lexeme.text_append_of_scan? hs).2⟩

theorem exists_unique_capture? (h : piece.first? cs = some m) :
    ∃! g, (m.capture? g).isSome := by
  obtain ⟨x, hx, -⟩ := exists_captures_eq h
  have hcapture (g : Group) : (m.capture? g).isSome ↔ x.group = g := by
    simp [Match.capture?, hx]
  exact ⟨x.group, (hcapture _).mpr rfl, fun g hg => ((hcapture g).mp hg).symm⟩

end Pattern

section Round

variable {cs rest : List Char} {position : Nat} {c : Char} {l : Lexeme}

theorem round_of_scan? (h : Lexeme.scan? ((cs.drop position).dropWhile isBlank) = some (l, rest)) :
    round cs position = .token l.token
      (position + ((cs.drop position).takeWhile isBlank ++ l.text).length) := by
  have htoken := token?_capture_lexeme (Lexeme.scan?_eq_some_iff.mp h).1
    ((cs.drop position).takeWhile isBlank).length
  rw [round, first?_piece_of_scan? h]
  cases hk : LexemeClass.ofLexeme l with
  | numeral | name | symbol =>
    rw [hk] at htoken
    simp [Match.append, Match.ofLexeme, Match.later, Match.capture?, hk, htoken]

theorem round_of_stray (hd : (cs.drop position).dropWhile isBlank = c :: rest)
    (hs : Lexeme.scan? (c :: rest) = none) : round cs position =
      .stray ⟨c, position + ((cs.drop position).takeWhile isBlank).length⟩ := by
  rw [round, first?_piece_of_stray hd hs]
  rfl

theorem exists_drop_eq (h : position < bound cs) : ∃ bs, (∀ c ∈ bs, isBlank c = true) ∧
    cs.drop position = (trimEnd cs).drop position ++ bs ∧
    ∃ c rest, ((trimEnd cs).drop position).dropWhile isBlank = c :: rest := by
  obtain ⟨bs, hbs, htrim⟩ := trimEnd_append cs
  refine ⟨bs, hbs, ?_, List.exists_cons_of_ne_nil fun hnil => ?_⟩
  · rw [← List.drop_append_of_le_length (Nat.le_of_lt h), htrim]
  · have hne : (trimEnd cs).drop position ≠ [] :=
      List.ne_nil_of_length_pos (List.length_drop ▸ Nat.sub_pos_of_lt h)
    have hlast := List.getLast?_eq_some_getLast hne
    have hblank := List.dropWhile_eq_nil_iff.mp hnil _ (List.mem_of_getLast? hlast)
    have hlt : ¬ (trimEnd cs).length ≤ position := Nat.not_le_of_lt h
    rw [List.getLast?_drop, if_neg hlt] at hlast
    rw [not_isBlank_getLast?_trimEnd cs _ hlast] at hblank
    cases hblank

theorem exists_match_iff :
    (∃ m, piece.first? (cs.drop position) = some m) ↔ position < bound cs := by
  rw [← Option.ne_none_iff_exists', Ne, first?_piece_eq_none_iff, ← List.dropWhile_eq_nil_iff]
  constructor
  · intro h
    by_contra hle
    obtain ⟨bs, hbs, htrim⟩ := trimEnd_append cs
    refine h (List.dropWhile_eq_nil_iff.mpr fun c hc => hbs c ?_)
    rw [← htrim, List.drop_append, List.drop_of_length_le (Nat.le_of_not_lt hle)] at hc
    exact List.mem_of_mem_drop hc
  · intro h hnil
    obtain ⟨bs, -, hdrop, c, rest, hd⟩ := exists_drop_eq h
    rw [hdrop, (takeWhile_append_of_dropWhile hd bs).2] at hnil
    cases hnil

/-- A round before the bound reads what is read there, and does not move over the bound. -/
theorem round_of_lt (h : position < bound cs) :
    (∃ x, round cs position = .stray x ∧
      readFrom position ((trimEnd cs).drop position) = ⟨[], some x⟩) ∨
    ∃ p next, round cs position = .token p.lexeme.token next ∧ position < next ∧ next ≤ bound cs ∧
      let later := readFrom next ((trimEnd cs).drop next)
      readFrom position ((trimEnd cs).drop position) = ⟨p :: later.pieces, later.stray⟩ := by
  obtain ⟨bs, hbs, hdrop, c, rest, hd⟩ := exists_drop_eq h
  have hleft (n : Nat) : ((trimEnd cs).drop position).drop n = (trimEnd cs).drop (position + n) :=
    List.drop_drop
  have hlength : ((trimEnd cs).drop position).length = bound cs - position := List.length_drop
  generalize (trimEnd cs).drop position = ds at hdrop hd hleft hlength ⊢
  have hhead : ∀ c ∈ bs.head?, isBlank c = true := fun c hc => hbs c (List.mem_of_mem_head? hc)
  obtain ⟨htake, hdrop'⟩ := takeWhile_append_of_dropWhile hd bs
  rw [← hdrop] at htake hdrop'
  cases hs : Lexeme.scan? (c :: rest) with
  | none =>
    refine .inl ⟨_, ?_, readFrom_of_scan?_eq_none hd hs position⟩
    rw [round_of_stray hdrop' (scan?_append_eq_none hhead hs), htake]
  | some y =>
    obtain ⟨l, after⟩ := y
    obtain ⟨htext, hne⟩ := Lexeme.text_append_of_scan? hs
    have hscan := scan?_append_of_delimits hs (delimits_of_head? hhead)
    have hround := round_of_scan? (hdrop' ▸ hscan)
    rw [htake] at hround
    have hsplit : ds.takeWhile isBlank ++ l.text ++ after = ds := by
      rw [List.append_assoc, htext, ← hd, List.takeWhile_append_dropWhile]
    have hnext : 0 < (ds.takeWhile isBlank ++ l.text).length :=
      List.length_pos_iff.mpr (List.append_ne_nil_of_right_ne_nil _ hne)
    rw [← hsplit, List.length_append] at hlength
    refine .inr ⟨⟨ds.takeWhile isBlank, l⟩, _, hround, by omega, by omega, ?_⟩
    have hread := readFrom_of_scan? (hd.symm ▸ hs) position
    have hafter : (ds.takeWhile isBlank ++ l.text ++ after).drop
        (ds.takeWhile isBlank ++ l.text).length = after := List.drop_left
    rw [hsplit] at hafter
    rw [Nat.add_assoc, ← List.length_append] at hread
    rwa [← hleft, hafter]

theorem rounds?_bound (n : Nat) : rounds? cs (bound cs) n =
    some ((readFrom (bound cs) ((trimEnd cs).drop (bound cs))).rounds (bound cs)) := by
  have hnil : (trimEnd cs).drop (bound cs) = [] := List.drop_length
  unfold rounds?
  rw [if_neg (Nat.lt_irrefl _), hnil, readFrom_blank rfl]
  rfl

/-- The rounds from a place up to the bound read what is left of the text. A round for each
character that is left is enough. -/
theorem rounds?_eq (n : Nat) (hle : position ≤ bound cs) (hn : bound cs ≤ position + n) :
    rounds? cs position n =
      some ((readFrom position ((trimEnd cs).drop position)).rounds (bound cs)) := by
  induction n generalizing position with
  | zero =>
    obtain rfl : position = bound cs := Nat.le_antisymm hle hn
    exact rounds?_bound 0
  | succ n ih =>
    by_cases h : position < bound cs
    · rw [rounds?, if_pos h]
      rcases round_of_lt h with ⟨x, hround, hread⟩ | ⟨p, next, hround, hlt, hle', hread⟩
      · rw [hround, hread]
        rfl
      · have hlater := ih hle' (by omega)
        simp only [hround, hlater, hread]
        unfold Reading.rounds
        cases (readFrom next ((trimEnd cs).drop next)).stray with
        | none => rfl
        | some x => rfl
    · obtain rfl : position = bound cs := Nat.le_antisymm hle (Nat.le_of_not_lt h)
      exact rounds?_bound (n + 1)

end Round

/-- Before the bound there is always a match, with one group that took part, and each round ends
with a stray character or moves on, but never over the bound. So with as many rounds as the text has
characters the reading has come to an end: at a stray character, or exactly at the bound, and then
that the tokens have ended is said after the last one and only there. -/
theorem rounds?_eq_read (s : String) :
    (∀ position, position < bound s.toList ↔
      ∃ m, piece.first? (s.toList.drop position) = some m) ∧
    (∀ position m, piece.first? (s.toList.drop position) = some m →
      (∃! g, (m.capture? g).isSome) ∧ ∀ x ∈ m.captures, x.text ≠ []) ∧
    (∀ position < bound s.toList, (∃ x, round s.toList position = .stray x) ∨
      ∃ t next, round s.toList position = .token t next ∧ position < next ∧
        next ≤ bound s.toList) ∧
    rounds? s.toList 0 s.toList.length = some ((read s).rounds (bound s.toList)) := by
  refine ⟨fun position => exists_match_iff.symm, fun position m hm => ⟨?_, ?_⟩, ?_, ?_⟩
  · exact exists_unique_capture? hm
  · obtain ⟨x, hx, hne⟩ := exists_captures_eq hm
    rw [hx]
    exact List.forall_mem_singleton.mpr hne
  · intro position h
    rcases round_of_lt h with ⟨x, hround, -⟩ | ⟨p, next, hround, hlt, hle, -⟩
    · exact .inl ⟨x, hround⟩
    · exact .inr ⟨p.lexeme.token, next, hround, hlt, hle⟩
  · obtain ⟨bs, -, htrim⟩ := trimEnd_append s.toList
    have hlength : bound s.toList ≤ s.toList.length :=
      List.IsPrefix.length_le ⟨bs, htrim⟩
    exact rounds?_eq s.toList.length (Nat.zero_le _) (by omega)

theorem rounds?_eq_read_blanks :
    bound "\u2003x1\u001C^ y\u3000".toList = 7 ∧
    rounds? "\u2003x1\u001C^ y\u3000".toList 0 8 = some
      ⟨[.token (.name "x1"), .token (.operator .pow), .token (.name "y"), .ended], .bound 7⟩ := by
  have hbound : bound "\u2003x1\u001C^ y\u3000".toList = 7 := by decide +kernel
  have hread : read "\u2003x1\u001C^ y\u3000" = ⟨[⟨['\u2003'], .name ['x', '1']⟩,
      ⟨['\u001C'], .operator .pow⟩, ⟨[' '], .name ['y']⟩], none⟩ := by decide +kernel
  obtain ⟨-, -, -, hrounds⟩ := rounds?_eq_read "\u2003x1\u001C^ y\u3000"
  rw [hbound, hread] at hrounds
  exact ⟨hbound, hrounds⟩

end Formula
