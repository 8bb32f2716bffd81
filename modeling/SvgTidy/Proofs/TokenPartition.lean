import SvgTidy.Proofs.ReaderStops
import SvgTidy.Proofs.UnboundedLoops

/-!
# Tokens cover their text

`Cursor.tokens` goes along a text in one recursion, on what is left to read. Asking for one token after
the other is a loop, `nextRound`, whose state says nothing of how much is left. Both come to the same
tokens, which are written piece after piece for the text: each piece is what its token was read from, a
token stands at the first and the last character of its piece, and only a failure leaves a rest behind.
All positions are counted anew from the beginning of the text.

Principal results: `Cursor.ends_tokens` — the loop ends; `Cursor.exists_partition` — the pieces of the
text behind a cursor; `tokenize_partitions` — both for a whole text.
-/

namespace SvgTidy.Markup

/-! ## Asking for tokens -/

/-- Ask for the next token, with the tokens so far. Behind the last one the text ends, or there is a
failure. -/
def nextRound : Cursor × List PlacedToken →
    Round (Cursor × List PlacedToken) (List PlacedToken × Option Failure)
  | (c, seen) =>
    if c.rest = [] then .done (seen, none)
    else
      match c.readToken with
      | .error failure => .done (seen, some failure)
      | .ok (token, d) => .again (d, seen ++ [⟨token, c.pos, d.last⟩])

/-- **Asking for tokens comes to an end**, and gives those of the recursion. -/
theorem Cursor.ends_tokens (c : Cursor) (seen : List PlacedToken) :
    Ends nextRound (c, seen) (seen ++ c.tokens.1, c.tokens.2) := by
  induction c using token_induction generalizing seen with
  | ended c hc =>
    rw [tokens_of_nil hc, List.append_nil]
    refine .done ?_
    rw [nextRound, if_pos hc]
  | failed c failure hc hread =>
    rw [tokens_of_error hc hread, List.append_nil]
    refine .done ?_
    rw [nextRound, if_neg hc, hread]
  | token c token d hc hread ih =>
    rw [tokens_of_ok hc hread]
    have hmore := ih (seen ++ [⟨token, c.pos, d.last⟩])
    rw [List.append_assoc, List.singleton_append] at hmore
    refine .again ?_ hmore
    rw [nextRound, if_neg hc, hread]

/-! ## Pieces -/

/-- A placed token covers a piece of a text, between what comes before and what comes after. -/
structure PlacedToken.Covers (placed : PlacedToken) (before piece after : List Char) : Prop where
  ne_nil : piece ≠ []
  start : placed.start = .behind before
  stop : placed.stop = .behind (before ++ piece.dropLast)
  written : placed.token.Written before piece
  /-- Text is not left before the next bracket. -/
  maximal : ∀ raw, placed.token = .text raw → StartsMarkup after

/-- How reading ends behind a text: at the end, or at a failure with a rest that gave no token. -/
def EndsWith (before rest : List Char) : Option Failure → Prop
  | none => rest = []
  | some (.endOfText pos) => rest ≠ [] ∧ pos = .behind (before ++ rest)
  | some (.faulty fault pos) => ∃ read next after, rest = read ++ next :: after ∧
      Breaks read fault (next :: after) ∧ pos = .behind (before ++ read)

/-- The pieces of a source that stands behind a text: one for each token, in order, and then the rest
that a failure leaves. -/
structure Partition (before source : List Char) (tokens : List PlacedToken) (failure : Option Failure)
    (pieces : List (List Char)) (rest : List Char) : Prop where
  whole : source = pieces.flatten ++ rest
  length_eq : pieces.length = tokens.length
  covers : ∀ (i : Nat) (placed : PlacedToken) (piece : List Char),
    tokens[i]? = some placed → pieces[i]? = some piece →
      placed.Covers (before ++ (pieces.take i).flatten) piece ((pieces.drop (i + 1)).flatten ++ rest)
  ends : EndsWith (before ++ pieces.flatten) rest failure

namespace Partition

variable {before rest : List Char} {failure : Option Failure}

theorem nil (h : EndsWith before rest failure) : Partition before rest [] failure [] rest where
  whole := rfl
  length_eq := rfl
  covers := nofun
  ends := by rwa [List.flatten_nil, List.append_nil]

theorem cons {placed : PlacedToken} {piece source : List Char} {tokens : List PlacedToken}
    {pieces : List (List Char)} (hcovers : placed.Covers before piece source)
    (h : Partition (before ++ piece) source tokens failure pieces rest) :
    Partition before (piece ++ source) (placed :: tokens) failure (piece :: pieces) rest where
  whole := by rw [List.flatten_cons, List.append_assoc, ← h.whole]
  length_eq := by rw [List.length_cons, List.length_cons, h.length_eq]
  covers := by
    intro i placed' piece' hplaced hpiece
    cases i with
    | zero =>
      cases hplaced
      cases hpiece
      rw [List.take_zero, List.flatten_nil, List.append_nil, List.drop_succ_cons, List.drop_zero,
        ← h.whole]
      exact hcovers
    | succ i =>
      have hmore := h.covers i placed' piece' hplaced hpiece
      rwa [List.append_assoc, ← List.flatten_cons, ← List.take_succ_cons] at hmore
  ends := by
    rw [List.flatten_cons, ← List.append_assoc]
    exact h.ends

end Partition

namespace Cursor

variable {c d : Cursor} {before : List Char}

/-- What gives no token is left at a character, or at the end of the text. -/
theorem endsWith_of_readToken {failure : Failure} (hne : c.rest ≠ []) (hc : c.pos = .behind before)
    (h : c.readToken = .error failure) : EndsWith before c.rest (some failure) := by
  have hstops := stops_of_readToken h
  cases failure with
  | endOfText pos =>
    refine ⟨hne, ?_⟩
    rw [Position.behind_append, ← hc]
    exact hstops
  | faulty fault pos =>
    obtain ⟨read, d, hspans, hbreaks, hpos⟩ := hstops
    obtain ⟨next, after, hrest⟩ := List.exists_cons_of_ne_nil hbreaks.ne_nil
    refine ⟨read, next, after, ?_, ?_, ?_⟩
    · rw [hspans.rest, hrest]
    · rwa [← hrest]
    · rw [hpos, hspans.pos_eq_behind hc]

/-- A token covers what it was read from. -/
theorem covers_of_readToken {token : Token} (hne : c.rest ≠ []) (hc : c.pos = .behind before)
    (h : c.readToken = .ok (token, d)) :
    ∃ piece, c.Spans piece d ∧
      PlacedToken.Covers ⟨token, c.pos, d.last⟩ before piece d.rest := by
  obtain ⟨piece, hwritten, hspans⟩ := written_of_readToken hne hc h
  have hpiece : piece ≠ [] := by
    rintro rfl
    have hshorter := length_readToken_lt hne h
    rw [hspans.rest] at hshorter
    exact Nat.lt_irrefl _ hshorter
  refine ⟨piece, hspans, hpiece, hc, ?_, hwritten, ?_⟩
  · show d.last = _
    rw [hspans.last hpiece, hc, Position.behind_append]
  · rintro raw rfl
    exact (startsMarkup_of_readToken_text hne h).2

/-- **The tokens from a cursor on cover what is left**, up to the end or to what gave no token. -/
theorem exists_partition (c : Cursor) (before : List Char) (hc : c.pos = .behind before) :
    ∃ pieces rest, Partition before c.rest c.tokens.1 c.tokens.2 pieces rest := by
  induction c using token_induction generalizing before with
  | ended c hnil =>
    rw [tokens_of_nil hnil]
    exact ⟨[], c.rest, .nil hnil⟩
  | failed c failure hne hread =>
    rw [tokens_of_error hne hread]
    exact ⟨[], c.rest, .nil (endsWith_of_readToken hne hc hread)⟩
  | token c token d hne hread ih =>
    obtain ⟨piece, hspans, hcovers⟩ := covers_of_readToken hne hc hread
    obtain ⟨pieces, rest, hpartition⟩ := ih _ (hspans.pos_eq_behind hc)
    rw [tokens_of_ok hne hread, hspans.rest]
    exact ⟨piece :: pieces, rest, hpartition.cons hcovers⟩

end Cursor

/-- The beginning of a text is behind its byte order mark. -/
theorem Cursor.eq_mark_append (text : List Char) :
    text = (if text.head? = some '\uFEFF' then ['\uFEFF'] else []) ++ (Cursor.ofText text).rest := by
  split
  · rename_i hmark
    obtain ⟨tail, rfl⟩ := List.head?_eq_some_iff.mp hmark
    rfl
  · rename_i hmark
    rw [List.nil_append]
    unfold ofText
    split
    · exact absurd rfl hmark
    · rfl

/-- **Tokens partition their text.** Asking for one token after the other ends, with the end of the
text or with a failure. Behind a byte order mark, if there is one, the text is cut into the pieces of
the tokens, none of them empty, and a rest that is there only for a failure; where tokens, values and
failures are said to stand is where they stand in the text without the mark. -/
theorem tokenize_partitions (text : List Char) :
    Ends nextRound (.ofText text, []) (tokenize text) ∧
      ∃ mark source pieces rest, text = mark ++ source ∧
        mark = (if text.head? = some '\uFEFF' then ['\uFEFF'] else []) ∧
        Partition [] source (tokenize text).1 (tokenize text).2 pieces rest := by
  obtain ⟨pieces, rest, hpartition⟩ := (Cursor.ofText text).exists_partition [] rfl
  exact ⟨(Cursor.ofText text).ends_tokens [], _, _, pieces, rest, Cursor.eq_mark_append text, rfl,
    hpartition⟩

/-- The mark takes no column; the value stands behind its quote in the second line, and the tag ends
there. What gives no token is faulty from the space on. -/
example : tokenize "\uFEFF<a\n b='1'>é</ ".toList =
    ([⟨.startTag ['a'] [⟨['b'], ['1'], ⟨2, 5⟩⟩] false, ⟨1, 1⟩, ⟨2, 7⟩⟩, ⟨.text ['é'], ⟨2, 8⟩, ⟨2, 8⟩⟩],
      some (.faulty .badEndTagName ⟨2, 11⟩)) := by
  decide +kernel

end SvgTidy.Markup
