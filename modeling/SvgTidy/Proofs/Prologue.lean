import Mathlib.Data.List.Basic
import SvgTidy.Proofs.LegibleTokens

/-!
# Doctypes of documents

A doctype as the grammar of XML has it: a name, perhaps an external identifier, and perhaps an
internal subset with entity declarations, comments and processing instructions.

The reader does not follow that grammar. It pairs off quotes and counts square brackets, and takes
the first `>` that stands outside of quotes and brackets for the end. Nothing in a doctype misleads
it, except what a comment or an instruction of the subset holds. `Skims` says of a subset that its
end is found all the same: quotes pair off throughout it, and outside of them the brackets do.

Principal results: `DoctypeDeclaration.closed_iff` — a doctype ends where its subset skims and only
there; `DoctypeDeclaration.skimmed_of_unmarked` — which it does if no comment and no instruction
holds a quote or a square bracket.
-/

namespace SvgTidy.Markup

/-! ## The grammar -/

/-- A name in a doctype. Any name of XML is one. -/
structure DoctypeName where
  chars : List Char
  ne_nil : chars ≠ []
  isName : ∀ c ∈ chars, isSpace c = false ∧ c ∉ "\"'[]<>".toList

/-- Where the external subset of a document is. -/
inductive ExternalId where
  | systemOnly (gap : Separator) (systemId : Literal)
  | withPublic (gap : Separator) (publicId : Literal) (between : Separator) (systemId : Literal)

/-- The declaration of an entity by its value. A parameter entity has a percent sign and some space
before its name. -/
structure EntityDeclaration where
  before : Separator
  parameter : Option Separator
  name : DoctypeName
  between : Separator
  value : Literal
  after : Space

/-- A part of an internal subset. -/
inductive SubsetItem where
  | space (c : Char) (h : isSpace c = true)
  | entity (declaration : EntityDeclaration)
  | comment (body : List Char) (h : Closed "--".toList body)
  | instruction (body : List Char) (h : Closed "?>".toList body)

/-- An internal subset, and the space after its closing bracket. -/
structure InternalSubset where
  items : List SubsetItem
  after : Space

/-- A doctype. -/
structure DoctypeDeclaration where
  before : Separator
  name : DoctypeName
  external : Option (Separator × ExternalId)
  between : Space
  subset : Option InternalSubset

def ExternalId.chars : ExternalId → List Char
  | .systemOnly gap systemId => "SYSTEM".toList ++ gap.chars ++ systemId.chars
  | .withPublic gap publicId between systemId =>
    "PUBLIC".toList ++ gap.chars ++ publicId.chars ++ between.chars ++ systemId.chars

def EntityDeclaration.chars (d : EntityDeclaration) : List Char :=
  let percent := match d.parameter with
    | none => []
    | some gap => '%' :: gap.chars
  "<!ENTITY".toList ++ d.before.chars ++ percent ++ d.name.chars ++ d.between.chars ++ d.value.chars
    ++ d.after.chars ++ ['>']

def SubsetItem.chars : SubsetItem → List Char
  | .space c _ => [c]
  | .entity declaration => declaration.chars
  | .comment body _ => "<!--".toList ++ body ++ "-->".toList
  | .instruction body _ => "<?".toList ++ body ++ "?>".toList

/-- The text between the brackets. -/
def InternalSubset.chars (s : InternalSubset) : List Char :=
  s.items.flatMap SubsetItem.chars

namespace DoctypeDeclaration

/-- The text between the keyword and the internal subset. -/
def head (d : DoctypeDeclaration) : List Char :=
  let external := match d.external with
    | none => []
    | some (gap, id) => gap.chars ++ id.chars
  d.before.chars ++ d.name.chars ++ external ++ d.between.chars

/-- The text between the keyword and the closing bracket. -/
def body (d : DoctypeDeclaration) : List Char :=
  match d.subset with
  | none => d.head
  | some subset => d.head ++ '[' :: (subset.chars ++ ']' :: subset.after.chars)

/-- The whole doctype. -/
def chars (d : DoctypeDeclaration) : List Char :=
  "<!DOCTYPE".toList ++ d.body ++ ['>']

end DoctypeDeclaration

/-! ## What is skimmed -/

/-- A character that the reader of a doctype heeds wherever it stands. -/
def isMark (c : Char) : Bool :=
  c == '"' || c == '\'' || c == '[' || c == ']'

theorem unmarked_of_all {run : List Char} (h : run.all (!isMark ·) = true) :
    ∀ c ∈ run, isMark c = false := by
  simpa using h

/-- The rest of a subset within some brackets: quotes pair off, and a closing bracket is missing at
the end, and not before. -/
inductive Skims : Nat → List Char → Prop where
  | nil {depth : Nat} (hdepth : depth ≤ 1) : Skims depth []
  | quoted {depth : Nat} {quote : Char} {value rest : List Char} (hquote : quote = '"' ∨ quote = '\'')
      (hvalue : quote ∉ value) (hrest : Skims depth rest) :
      Skims depth (quote :: (value ++ quote :: rest))
  | opening {depth : Nat} {rest : List Char} (hrest : Skims (depth + 1) rest) :
      Skims depth ('[' :: rest)
  | closing {depth : Nat} {rest : List Char} (hrest : Skims (depth - 1) rest) :
      Skims depth (']' :: rest)
  | plain {depth : Nat} {c : Char} {rest : List Char} (hc : isMark c = false)
      (hbracket : c = '>' → depth ≠ 0) (hrest : Skims depth rest) : Skims depth (c :: rest)

theorem doctypeBody?_plain {depth : Nat} {c : Char} (hc : isMark c = false)
    (hbracket : c = '>' → depth ≠ 0) (rest : List Char) :
    Cursor.doctypeBody? none depth (c :: rest) =
      (Cursor.doctypeBody? none depth rest).map (c :: ·) := by
  have hclose : ¬ (c = '>' ∧ depth = 0) := fun hboth => hbracket hboth.1 hboth.2
  simp only [isMark, Bool.or_eq_false_iff, beq_eq_false_iff_ne, ne_eq] at hc
  obtain ⟨⟨⟨hdouble, hsingle⟩, hopening⟩, hclosing⟩ := hc
  rw [Cursor.doctypeBody?, if_neg hclose, if_neg (by simp [hdouble, hsingle]), if_neg hopening,
    if_neg hclosing]

/-- The reader of a doctype passes over this and is where it was before. -/
def Neutral (depth : Nat) (run : List Char) : Prop :=
  ∀ rest, Cursor.doctypeBody? none depth (run ++ rest) =
    (Cursor.doctypeBody? none depth rest).map (run ++ ·)

namespace Neutral

variable {depth : Nat} {run run' : List Char}

theorem nil (depth : Nat) : Neutral depth [] := by
  intro rest
  simp

theorem append (h : Neutral depth run) (h' : Neutral depth run') : Neutral depth (run ++ run') := by
  intro rest
  rw [List.append_assoc, h, h', Option.map_map]
  congr 1
  funext text
  simp

theorem cons {c : Char} (hc : isMark c = false) (hbracket : c = '>' → depth ≠ 0)
    (h : Neutral depth run) : Neutral depth (c :: run) := by
  intro rest
  rw [List.cons_append, doctypeBody?_plain hc hbracket, h, Option.map_map]
  rfl

theorem plain (hrun : ∀ c ∈ run, isMark c = false) (hbracket : '>' ∈ run → depth ≠ 0) :
    Neutral depth run := by
  induction run with
  | nil => exact .nil depth
  | cons c run ih =>
    refine .cons (hrun c List.mem_cons_self) (fun hc => hbracket (hc ▸ List.mem_cons_self)) ?_
    exact ih (fun x hx => hrun x (List.mem_cons_of_mem _ hx))
      fun hmem => hbracket (List.mem_cons_of_mem _ hmem)

theorem space (s : Space) (depth : Nat) : Neutral depth s.chars := by
  refine .plain (fun c hc => ?_) fun hmem => ?_
  · have hspace := s.isSpace c hc
    simp only [isSpace, Bool.or_eq_true, beq_iff_eq] at hspace
    rcases hspace with ((rfl | rfl) | rfl) | rfl <;> rfl
  · have hspace := s.isSpace _ hmem
    cases hspace

theorem name (n : DoctypeName) (depth : Nat) : Neutral depth n.chars := by
  refine .plain (fun c hc => ?_) fun hmem => ?_
  · have hname := (n.isName c hc).2
    simp at hname
    simp [isMark, hname]
  · exact absurd (by decide) (n.isName _ hmem).2

/-- Inside quotes only the closing quote counts. -/
theorem quoted {quote : Char} {value : List Char} (hvalue : quote ∉ value) (depth : Nat)
    (rest : List Char) :
    Cursor.doctypeBody? (some quote) depth (value ++ quote :: rest) =
      (Cursor.doctypeBody? none depth rest).map (value ++ quote :: ·) := by
  induction value with
  | nil =>
    rw [List.nil_append, Cursor.doctypeBody?, if_pos rfl]
    rfl
  | cons c value ih =>
    rw [List.mem_cons, not_or] at hvalue
    rw [List.cons_append, Cursor.doctypeBody?, if_neg (Ne.symm hvalue.1), ih hvalue.2,
      Option.map_map]
    rfl

theorem literal (l : Literal) (depth : Nat) : Neutral depth l.chars := by
  intro rest
  have hclose : ¬ (l.quote = '>' ∧ depth = 0) := by
    rintro ⟨hquote, -⟩
    have hmark := l.isQuote
    rw [hquote] at hmark
    revert hmark
    decide
  rw [Literal.chars, List.cons_append, Cursor.doctypeBody?, if_neg hclose, if_pos l.isQuote,
    List.append_assoc, List.singleton_append, quoted l.closed, Option.map_map]
  congr 1
  funext text
  simp

theorem externalId (id : ExternalId) (depth : Nat) : Neutral depth id.chars := by
  have hword (word : String) (hmarks : word.toList.all (!isMark ·) = true)
      (hbracket : '>' ∉ word.toList) : Neutral depth word.toList :=
    .plain (unmarked_of_all hmarks) (absurd · hbracket)
  cases id with
  | systemOnly gap systemId =>
    exact ((hword "SYSTEM" (by decide) (by decide)).append (.space _ _)).append (.literal _ _)
  | withPublic gap publicId between systemId =>
    exact ((((hword "PUBLIC" (by decide) (by decide)).append (.space _ _)).append
      (.literal _ _)).append (.space _ _)).append (.literal _ _)

theorem entity (d : EntityDeclaration) (hdepth : depth ≠ 0) : Neutral depth d.chars := by
  have hkeyword : Neutral depth "<!ENTITY".toList :=
    .plain (unmarked_of_all (by decide)) (absurd · (by decide))
  have hpercent : Neutral depth
      (match d.parameter with | none => [] | some gap => '%' :: gap.chars) := by
    cases d.parameter with
    | none => exact .nil depth
    | some gap => exact .cons rfl nofun (.space _ _)
  have hclose : Neutral depth ['>'] := .cons rfl (fun _ => hdepth) (.nil depth)
  exact ((((((hkeyword.append (.space _ _)).append hpercent).append (.name _ _)).append
    (.space _ _)).append (.literal _ _)).append (.space _ _)).append hclose

end Neutral

/-! ## Where a doctype ends -/

theorem map_cons_eq_some_iff {c : Char} {text : List Char} {found : Option (List Char)} :
    found.map (c :: ·) = some (c :: text) ↔ found = some text := by
  cases found <;> simp

theorem map_append_eq_some_iff {run text : List Char} {found : Option (List Char)} :
    found.map (run ++ ·) = some (run ++ text) ↔ found = some text := by
  cases found <;> simp

section Steps

open Cursor

theorem doctypeBody?_opening (depth : Nat) (rest : List Char) :
    doctypeBody? none depth ('[' :: rest) = (doctypeBody? none (depth + 1) rest).map ('[' :: ·) := by
  rw [doctypeBody?, if_neg (by simp), if_neg (by decide), if_pos rfl]

theorem doctypeBody?_closing (depth : Nat) (rest : List Char) :
    doctypeBody? none depth (']' :: rest) = (doctypeBody? none (depth - 1) rest).map (']' :: ·) := by
  rw [doctypeBody?, if_neg (by simp), if_neg (by decide), if_neg (by decide), if_pos rfl]

theorem doctypeBody?_quote {quote : Char} (hquote : quote = '"' ∨ quote = '\'') (depth : Nat)
    (rest : List Char) : doctypeBody? none depth (quote :: rest) =
      (doctypeBody? (some quote) depth rest).map (quote :: ·) := by
  have hclose : ¬ (quote = '>' ∧ depth = 0) := by
    rintro ⟨rfl, -⟩
    revert hquote
    decide
  rw [doctypeBody?, if_neg hclose, if_pos hquote]

theorem doctypeBody?_of_open {quote : Char} (depth : Nat) {text : List Char} (h : quote ∉ text) :
    doctypeBody? (some quote) depth text = none := by
  induction text with
  | nil => rfl
  | cons c text ih =>
    rw [List.mem_cons, not_or] at h
    rw [doctypeBody?, if_neg (Ne.symm h.1), ih h.2]
    rfl

end Steps

/-- What stands behind the closing quote. -/
theorem dropWhile_quoted {quote : Char} {value : List Char} (hvalue : quote ∉ value)
    (rest : List Char) : (value ++ quote :: rest).dropWhile (· != quote) = quote :: rest := by
  refine dropWhile_append_stop (fun c hc => ?_) fun c hc => ?_
  · rw [bne_iff_ne]
    rintro rfl
    exact hvalue hc
  · cases hc
    simp

theorem skims_literal_iff {depth : Nat} (l : Literal) (rest : List Char) :
    Skims depth (l.chars ++ rest) ↔ Skims depth rest := by
  obtain ⟨quote, value, hquote, hvalue⟩ := l
  have hchars : (Literal.mk quote value hquote hvalue).chars ++ rest =
      quote :: (value ++ quote :: rest) := by
    simp [Literal.chars]
  rw [hchars]
  refine ⟨fun h => ?_, .quoted hquote hvalue⟩
  generalize htext : value ++ quote :: rest = text at h
  cases h with
  | quoted _ hother hrest =>
    have hbehind := congrArg (List.dropWhile (· != quote)) htext
    rw [dropWhile_quoted hvalue, dropWhile_quoted hother] at hbehind
    cases hbehind
    exact hrest
  | plain hc => rcases hquote with rfl | rfl <;> cases hc
  | opening => simp at hquote
  | closing => simp at hquote

/-- A quote that nothing closes hides the end. -/
theorem not_skims_of_open {depth : Nat} {quote : Char} {rest : List Char}
    (hquote : quote = '"' ∨ quote = '\'') (hopen : quote ∉ rest) : ¬ Skims depth (quote :: rest) := by
  intro h
  cases h with
  | quoted => simp at hopen
  | opening => simp at hquote
  | closing => simp at hquote
  | plain hc => rcases hquote with rfl | rfl <;> cases hc

theorem skims_opening_iff {depth : Nat} {rest : List Char} :
    Skims depth ('[' :: rest) ↔ Skims (depth + 1) rest := by
  refine ⟨fun h => ?_, .opening⟩
  cases h with
  | quoted hquote => simp at hquote
  | opening h => exact h
  | plain hc => cases hc

theorem skims_closing_iff {depth : Nat} {rest : List Char} :
    Skims depth (']' :: rest) ↔ Skims (depth - 1) rest := by
  refine ⟨fun h => ?_, .closing⟩
  cases h with
  | quoted hquote => simp at hquote
  | closing h => exact h
  | plain hc => cases hc

theorem skims_plain_iff {depth : Nat} {c : Char} (hc : isMark c = false) {rest : List Char} :
    Skims depth (c :: rest) ↔ (c = '>' → depth ≠ 0) ∧ Skims depth rest := by
  refine ⟨fun h => ?_, fun h => .plain hc h.1 h.2⟩
  cases h with
  | quoted hquote => rcases hquote with rfl | rfl <;> cases hc
  | opening => cases hc
  | closing => cases hc
  | plain _ hbracket hrest => exact ⟨hbracket, hrest⟩

theorem isMark_cases {c : Char} (h : isMark c = true) : (c = '"' ∨ c = '\'') ∨ c = '[' ∨ c = ']' := by
  simpa [isMark, or_assoc] using h

/-- At the end of the subset one bracket is to be closed. Closing brackets too many do no harm. -/
theorem doctypeBody?_after (after : Space) (depth : Nat) :
    Cursor.doctypeBody? none depth (']' :: (after.chars ++ ['>'])) = some (']' :: after.chars) ↔
      depth ≤ 1 := by
  have hend : some after.chars = some (after.chars ++ []) := by rw [List.append_nil]
  rw [doctypeBody?_closing, map_cons_eq_some_iff, Neutral.space after, hend, map_append_eq_some_iff,
    ← Nat.sub_eq_zero_iff_le]
  simp only [Cursor.doctypeBody?]
  split
  · rename_i hclose
    simpa using hclose.2
  · rename_i hclose
    simpa using hclose

/-- The reader finds the end of the subset, from some depth on, where it is. -/
def Finds (after : Space) (depth : Nat) (subset : List Char) : Prop :=
  Cursor.doctypeBody? none depth (subset ++ ']' :: (after.chars ++ ['>'])) =
    some (subset ++ ']' :: after.chars)

theorem finds_neutral_iff {after : Space} {depth : Nat} {run : List Char} (h : Neutral depth run)
    (rest : List Char) : Finds after depth (run ++ rest) ↔ Finds after depth rest := by
  rw [Finds, Finds, List.append_assoc, List.append_assoc, h, map_append_eq_some_iff]

/-- A quote that nothing closes runs to the end of the text. -/
theorem not_finds_of_open {after : Space} {depth : Nat} {quote : Char} {rest : List Char}
    (hquote : quote = '"' ∨ quote = '\'') (hopen : quote ∉ rest) :
    ¬ Finds after depth (quote :: rest) := by
  have hspace : quote ∉ after.chars := fun hmem => by
    have hspace := after.isSpace quote hmem
    rcases hquote with rfl | rfl <;> cases hspace
  have hnone : quote ∉ rest ++ ']' :: (after.chars ++ ['>']) := by
    rcases hquote with rfl | rfl <;> simp [hopen, hspace]
  rw [Finds, List.cons_append, doctypeBody?_quote hquote, doctypeBody?_of_open depth hnone]
  nofun

theorem finds_plain_iff {after : Space} {depth : Nat} {c : Char} (hc : isMark c = false)
    (rest : List Char) :
    Finds after depth (c :: rest) ↔ (c = '>' → depth ≠ 0) ∧ Finds after depth rest := by
  by_cases hend : c = '>' ∧ depth = 0
  · have hfound (text : List Char) : Cursor.doctypeBody? none depth (c :: text) = some [] := by
      rw [Cursor.doctypeBody?, if_pos hend]
    rw [Finds, List.cons_append, hfound]
    exact ⟨fun heq => (by cases heq), fun h => absurd hend.2 (h.1 hend.1)⟩
  · have hbracket : c = '>' → depth ≠ 0 := fun hc hdepth => hend ⟨hc, hdepth⟩
    rw [Finds, List.cons_append, List.cons_append, doctypeBody?_plain hc hbracket,
      map_cons_eq_some_iff, Finds]
    exact (and_iff_right hbracket).symm

/-- **The reader finds the end of a subset that skims, and of no other.** -/
theorem skims_iff (after : Space) (depth : Nat) (subset : List Char) :
    Finds after depth subset ↔ Skims depth subset := by
  generalize hlength : subset.length = length
  induction length using Nat.strongRecOn generalizing subset depth with
  | ind length ih =>
    cases subset with
    | nil =>
      rw [Finds, List.nil_append, List.nil_append, doctypeBody?_after]
      refine ⟨.nil, fun h => ?_⟩
      cases h with
      | nil hdepth => exact hdepth
    | cons c rest =>
      rw [List.length_cons] at hlength
      have hrest (depth : Nat) := ih rest.length (by omega) depth rest rfl
      cases hc : isMark c with
      | false => rw [finds_plain_iff hc, skims_plain_iff hc, hrest]
      | true =>
        rcases isMark_cases hc with hquote | rfl | rfl
        · by_cases hopen : c ∈ rest
          · obtain ⟨value, behind, rfl, hvalue⟩ := List.eq_append_cons_of_mem hopen
            rw [List.length_append, List.length_cons] at hlength
            let literal : Literal := ⟨c, value, hquote, hvalue⟩
            have hfront : c :: (value ++ c :: behind) = literal.chars ++ behind := by
              simp [literal, Literal.chars]
            rw [hfront, finds_neutral_iff (.literal literal depth), skims_literal_iff]
            exact ih behind.length (by omega) depth behind rfl
          · exact ⟨fun h => absurd h (not_finds_of_open hquote hopen),
              fun h => absurd h (not_skims_of_open hquote hopen)⟩
        · rw [skims_opening_iff, ← hrest, Finds, List.cons_append, List.cons_append,
            doctypeBody?_opening, map_cons_eq_some_iff, Finds]
        · rw [skims_closing_iff, ← hrest, Finds, List.cons_append, List.cons_append,
            doctypeBody?_closing, map_cons_eq_some_iff, Finds]

namespace SubsetItem

/-- Neither a comment nor an instruction that holds a quote or a square bracket. -/
def Unmarked : SubsetItem → Prop
  | .comment body _ | .instruction body _ => ∀ c ∈ body, isMark c = false
  | _ => True

theorem Unmarked.neutral {item : SubsetItem} (h : item.Unmarked) : Neutral 1 item.chars := by
  have hrun {run : List Char} (hrun : ∀ c ∈ run, isMark c = false) : Neutral 1 run :=
    .plain hrun fun _ => Nat.one_ne_zero
  have hword (word : String) (hmarks : word.toList.all (!isMark ·) = true) :
      Neutral 1 word.toList := hrun (unmarked_of_all hmarks)
  cases item with
  | space c hc => exact .space ⟨[c], by simpa using hc⟩ 1
  | entity declaration => exact .entity declaration Nat.one_ne_zero
  | comment body _ =>
    exact ((hword "<!--" (by decide)).append (hrun h)).append (hword "-->" (by decide))
  | instruction body _ =>
    exact ((hword "<?" (by decide)).append (hrun h)).append (hword "?>" (by decide))

end SubsetItem

namespace DoctypeDeclaration

variable (d : DoctypeDeclaration)

theorem chars_append (rest : List Char) :
    d.chars ++ rest = "<!DOCTYPE".toList ++ (d.body ++ '>' :: rest) := by
  unfold chars
  simp only [List.append_assoc, List.singleton_append]

/-- The end of the doctype is found: there is no internal subset, or it skims. -/
def Skimmed : Prop :=
  ∀ subset, d.subset = some subset → Skims 1 subset.chars

theorem neutral_head : Neutral 0 d.head := by
  have hexternal : Neutral 0
      (match d.external with | none => [] | some (gap, id) => gap.chars ++ id.chars) := by
    cases d.external with
    | none => exact .nil 0
    | some external => exact (Neutral.space _ _).append (.externalId _ _)
  exact (((Neutral.space _ _).append (.name _ _)).append hexternal).append (.space _ _)

/-- **A doctype ends where its grammar says if its subset skims, and elsewhere if not.** -/
theorem closed_iff : DoctypeClosed d.body ↔ d.Skimmed := by
  unfold DoctypeClosed body Skimmed
  cases hsubset : d.subset with
  | none =>
    simp only
    have hclose : Cursor.doctypeBody? none 0 ['>'] = some [] := by simp [Cursor.doctypeBody?]
    rw [d.neutral_head, hclose]
    simp
  | some subset =>
    have hhead : d.head ++ '[' :: (subset.chars ++ ']' :: subset.after.chars) ++ ['>'] =
        d.head ++ '[' :: (subset.chars ++ ']' :: (subset.after.chars ++ ['>'])) := by
      simp
    simp only
    rw [hhead, d.neutral_head, map_append_eq_some_iff, doctypeBody?_opening, map_cons_eq_some_iff,
      ← Finds, skims_iff]
    simp

/-- **Only a comment or an instruction can hide the end of a doctype.** -/
theorem skimmed_of_unmarked (h : ∀ subset, d.subset = some subset →
    ∀ item ∈ subset.items, item.Unmarked) : d.Skimmed := by
  intro subset hsubset
  have hneutral : ∀ items : List SubsetItem, (∀ item ∈ items, item.Unmarked) →
      Neutral 1 (items.flatMap SubsetItem.chars) := by
    intro items hitems
    induction items with
    | nil => exact .nil 1
    | cons item items ih =>
      rw [List.flatMap_cons]
      exact (hitems item List.mem_cons_self).neutral.append
        (ih fun x hx => hitems x (List.mem_cons_of_mem _ hx))
  have hend : Finds subset.after 1 (subset.chars ++ []) ↔ Finds subset.after 1 [] :=
    finds_neutral_iff (hneutral subset.items (h subset hsubset)) []
  rw [List.append_nil, skims_iff, skims_iff] at hend
  exact hend.mpr (.nil (Nat.le_refl 1))

end DoctypeDeclaration

end SvgTidy.Markup
