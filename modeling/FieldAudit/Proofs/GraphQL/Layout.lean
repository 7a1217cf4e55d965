import FieldAudit.GraphQL.Lexer
import FieldAudit.Text.Blank
import Mathlib.Data.List.Basic
import Mathlib.Data.List.Induction

/-!
Layouts. A layout writes lexemes one after the other, with spaces, line breaks, commas, byte-order
marks and comments between them wherever they please; only a name has to be kept apart from a name
that follows it. The tokens of a layout are its lexemes and the end of the text
(`tokenizeFrom_layout`), and trimming a layout gives a layout of the same lexemes (`Layout.trim`).
Lexemes that can be spelled have a layout, with a space behind each of them (`layout_spaced`).

Only the lexemes of which executable documents without arguments are made occur here.
-/

set_option autoImplicit false

namespace FieldAudit.GraphQL

/-! ## 1. Lexemes -/

/-- What a document depends on in a token: its kind and its value. -/
structure Lexeme where
  kind : TokenKind
  value : Text
  deriving DecidableEq, Repr

/-- A token without its place. -/
def Token.lexeme (token : Token) : Lexeme := ⟨token.kind, token.value⟩

/-- A name: a letter or an underscore, and then letters, underscores and digits. -/
def isName : Text → Bool
  | [] => false
  | p :: rest => isNameStart p && rest.all isNameContinue

namespace Lexeme

/-- A word. -/
def word (name : Text) : Lexeme := ⟨.name, name⟩

/-- The token that opens a selection set. -/
def opening : Lexeme := ⟨.braceOpen, []⟩

/-- The token that closes a selection set. -/
def closing : Lexeme := ⟨.braceClose, []⟩

/-- The token between an alias and its field. -/
def colon : Lexeme := ⟨.colon, []⟩

/-- The token before a spread or an inline fragment. -/
def dots : Lexeme := ⟨.spread, []⟩

end Lexeme

/-- The one spelling of a lexeme. -/
inductive Spelled : Lexeme → Text → Prop
  | word {name : Text} (hname : isName name = true) : Spelled (.word name) name
  | opening : Spelled .opening "\x7b"
  | closing : Spelled .closing "\x7d"
  | colon : Spelled .colon ":"
  | dots : Spelled .dots "..."

/-- The spelling of the lexemes that have one. -/
def Lexeme.spelling (lexeme : Lexeme) : Text :=
  match lexeme.kind with
  | .braceOpen => "\x7b"
  | .braceClose => "\x7d"
  | .colon => ":"
  | .spread => "..."
  | _ => lexeme.value

/-- A text that lays out lexemes. A comment ends where a line or the text does. -/
inductive Layout : List Lexeme → Text → Prop
  | nil : Layout [] []
  | ignored {p : Point} {lexemes : List Lexeme} {text : Text} (hp : isIgnored p = true)
      (hrest : Layout lexemes text) : Layout lexemes (p :: text)
  | comment {body : Text} {lexemes : List Lexeme} {text : Text}
      (hbody : ∀ p ∈ body, isLineEnd p = false ∧ p.isHalf = false)
      (hend : ∀ p ∈ text.head?, isLineEnd p = true) (hrest : Layout lexemes text) :
      Layout lexemes ('#' :: (body ++ text))
  | lexeme {lexeme : Lexeme} {spelling : Text} {lexemes : List Lexeme} {text : Text}
      (hspelled : Spelled lexeme spelling)
      (hapart : lexeme.kind = .name → ∀ p ∈ text.head?, isNameContinue p = false)
      (hrest : Layout lexemes text) : Layout (lexeme :: lexemes) (spelling ++ text)

/-! ## 2. The points of names -/

/-- The points of a name are ASCII letters, digits and the underscore. -/
theorem code_of_isNameContinue {p : Point} (h : isNameContinue p = true) :
    p.code = 95 ∨ (65 ≤ p.code ∧ p.code ≤ 90) ∨ (97 ≤ p.code ∧ p.code ≤ 122)
      ∨ (48 ≤ p.code ∧ p.code ≤ 57) := by
  simp only [isNameContinue, isNameStart, isDigit, Bool.or_eq_true, Bool.and_eq_true, beq_iff_eq,
    decide_eq_true_eq] at h
  rcases h with ((h | h) | h) | h
  · rw [h]
    exact .inl rfl
  · exact .inr (.inl h)
  · exact .inr (.inr (.inl h))
  · exact .inr (.inr (.inr h))

theorem isNameContinue_of_isNameStart {p : Point} (h : isNameStart p = true) :
    isNameContinue p = true := by
  rw [isNameContinue, h, Bool.true_or]

theorem isNameContinue_of_mem {name : Text} (hname : isName name = true) {p : Point}
    (hp : p ∈ name) : isNameContinue p = true := by
  cases name with
  | nil => exact absurd hp List.not_mem_nil
  | cons first rest =>
    rw [isName, Bool.and_eq_true] at hname
    rcases List.mem_cons.mp hp with rfl | hrest
    · exact isNameContinue_of_isNameStart hname.1
    · exact List.all_eq_true.mp hname.2 p hrest

/-- No punctuator starts a name. -/
theorem punctuator?_of_isNameStart {p : Point} (h : isNameStart p = true) :
    punctuator? p = none := by
  unfold punctuator?
  split <;> first | rfl | exact absurd h (by decide)

/-- What is ignored between tokens starts none of them, and neither does the sign of a comment. -/
theorem not_ignored_of_isNameStart {p : Point} (h : isNameStart p = true) :
    isIgnored p = false ∧ p ≠ '#' := by
  constructor
  · rw [Bool.eq_false_iff]
    intro hignored
    simp only [isIgnored, isLineEnd, Bool.or_eq_true, beq_iff_eq] at hignored
    rcases hignored with (((rfl | rfl) | rfl) | rfl) | (rfl | rfl) <;> exact absurd h (by decide)
  · rintro rfl
    exact absurd h (by decide)

/-- No point of a name is a blank. -/
theorem isBlank_of_isNameContinue {p : Point} (h : isNameContinue p = true) :
    Text.isBlank p = false := by
  have hcode := code_of_isNameContinue h
  rw [Bool.eq_false_iff]
  intro hblank
  simp only [Text.isBlank, Bool.or_eq_true, Bool.and_eq_true, decide_eq_true_eq,
    beq_iff_eq] at hblank
  omega

/-! ## 3. Tokens of a layout -/

/-- A spelling is scanned as its lexeme, whatever follows it that does not go on with a name. -/
theorem scanToken_spelled {lexeme : Lexeme} {spelling : Text} (hspelled : Spelled lexeme spelling)
    {text : Text} (hapart : lexeme.kind = .name → ∀ p ∈ text.head?, isNameContinue p = false)
    (offset : Nat) :
    ∃ p more, spelling = p :: more ∧ isIgnored p = false ∧ p ≠ '#'
      ∧ scanToken offset p (more ++ text) = .ok (lexeme.kind, lexeme.value, more.length) := by
  cases hspelled with
  | word hname =>
    cases spelling with
    | nil => exact absurd hname (by decide)
    | cons p more =>
      rw [isName, Bool.and_eq_true] at hname
      obtain ⟨hignored, hcomment⟩ := not_ignored_of_isNameStart hname.1
      -- the scanner takes the longest run of name points, which ends where the name does
      have hstop : text.takeWhile isNameContinue = [] := by
        cases text with
        | nil => rfl
        | cons q rest =>
          rw [List.takeWhile_cons_of_neg]
          rw [hapart rfl q rfl]
          exact Bool.false_ne_true
      have htake : (more ++ text).takeWhile isNameContinue = more := by
        rw [List.takeWhile_append_of_pos (List.all_eq_true.mp hname.2), hstop, List.append_nil]
      refine ⟨p, more, rfl, hignored, hcomment, ?_⟩
      unfold scanToken
      rw [punctuator?_of_isNameStart hname.1]
      simp only [hname.1, if_true, htake]
      rfl
  | opening => exact ⟨_, _, rfl, by decide, by decide, rfl⟩
  | closing => exact ⟨_, _, rfl, by decide, by decide, rfl⟩
  | colon => exact ⟨_, _, rfl, by decide, by decide, rfl⟩
  | dots => exact ⟨_, _, rfl, by decide, by decide, rfl⟩

/-- **Layouts have the tokens that they lay out.** The tokens of a layout are its lexemes, in order,
and then the end of the text. By induction on the layout, a case for each thing that may come
next. -/
theorem tokenizeFrom_layout {lexemes : List Lexeme} {text : Text} (h : Layout lexemes text)
    (offset : Nat) :
    ∃ tokens stop, tokenizeFrom offset text = ⟨tokens ++ [⟨.endOfText, [], stop⟩], none⟩
      ∧ tokens.map Token.lexeme = lexemes := by
  induction h generalizing offset with
  | nil => exact ⟨[], offset, by rw [tokenizeFrom]; rfl, rfl⟩
  | @ignored p lexemes text hp _ ih =>
    obtain ⟨tokens, stop, htokens, hlexemes⟩ := ih (offset + 1)
    refine ⟨tokens, stop, ?_, hlexemes⟩
    rw [tokenizeFrom, if_pos hp, htokens]
  | @comment body lexemes text hbody hend _ ih =>
    -- the scanner passes over the comment up to the end of its line
    have hstop : text.takeWhile (fun p => !isLineEnd p && !p.isHalf) = [] := by
      cases text with
      | nil => rfl
      | cons q rest =>
        rw [List.takeWhile_cons_of_neg]
        rw [hend q rfl]
        exact Bool.false_ne_true
    have hbody : ∀ p ∈ body, (!isLineEnd p && !p.isHalf) = true := by
      intro p hp
      rw [(hbody p hp).1, (hbody p hp).2]
      rfl
    have htake : (body ++ text).takeWhile (fun p => !isLineEnd p && !p.isHalf) = body := by
      rw [List.takeWhile_append_of_pos hbody, hstop, List.append_nil]
    obtain ⟨tokens, stop, htokens, hlexemes⟩ := ih (offset + 1 + body.length)
    refine ⟨tokens, stop, ?_, hlexemes⟩
    rw [tokenizeFrom, if_neg (by decide), if_pos rfl]
    simp only [htake, List.drop_left, htokens]
  | @lexeme lexeme spelling lexemes text hspelled hapart _ ih =>
    obtain ⟨p, more, rfl, hignored, hcomment, hscan⟩ := scanToken_spelled hspelled hapart offset
    obtain ⟨tokens, stop, htokens, hlexemes⟩ := ih (offset + 1 + more.length)
    refine ⟨⟨lexeme.kind, lexeme.value, offset⟩ :: tokens, stop, ?_, ?_⟩
    · rw [List.cons_append, tokenizeFrom, if_neg (by rw [hignored]; exact Bool.false_ne_true),
        if_neg hcomment, hscan]
      simp only [List.drop_left, htokens, List.cons_append]
    · rw [List.map_cons, hlexemes]
      rfl

/-! ## 4. Trimming a layout -/

/-- A spelling holds something, and no blanks. -/
theorem spelled_not_blank {lexeme : Lexeme} {spelling : Text} (h : Spelled lexeme spelling) :
    spelling ≠ [] ∧ ∀ p ∈ spelling, Text.isBlank p = false := by
  cases h with
  | word hname =>
    refine ⟨?_, fun p hp => isBlank_of_isNameContinue (isNameContinue_of_mem hname hp)⟩
    rintro rfl
    exact absurd hname (by decide)
  | opening => exact ⟨by decide, by decide⟩
  | closing => exact ⟨by decide, by decide⟩
  | colon => exact ⟨by decide, by decide⟩
  | dots => exact ⟨by decide, by decide⟩

namespace Layout

/-- A layout without the blank in front of it. -/
theorem tail {lexemes : List Lexeme} {p : Point} {text : Text} (h : Layout lexemes (p :: text))
    (hp : Text.isBlank p = true) : Layout lexemes text := by
  -- the text is named, for a layout by cases needs a variable there
  generalize hwhole : p :: text = whole at h
  cases h with
  | nil => exact absurd hwhole (List.cons_ne_nil p text)
  | ignored _ hrest =>
    rw [(List.cons.inj hwhole).2]
    exact hrest
  | comment _ _ _ =>
    rw [(List.cons.inj hwhole).1] at hp
    exact absurd hp (by decide)
  | @lexeme lexeme spelling _ _ hspelled _ _ =>
    obtain ⟨hne, hblank⟩ := spelled_not_blank hspelled
    obtain ⟨q, more, rfl⟩ := List.exists_cons_of_ne_nil hne
    rw [(List.cons.inj hwhole).1, hblank q List.mem_cons_self] at hp
    exact absurd hp Bool.false_ne_true

/-- The head of a text stays when its end is taken away. -/
theorem head?_append_singleton {text : Text} {p q : Point} (h : q ∈ text.head?) :
    q ∈ (text ++ [p]).head? := by
  cases text with
  | nil => exact absurd h (Option.not_mem_none q)
  | cons first rest => exact h

/-- A layout without the blank at its end. The blank is something ignored or the end of a
comment. -/
theorem dropLast {lexemes : List Lexeme} {text : Text} {p : Point}
    (h : Layout lexemes (text ++ [p])) (hp : Text.isBlank p = true) : Layout lexemes text := by
  generalize hwhole : text ++ [p] = whole at h
  induction h generalizing text with
  | nil => exact absurd hwhole (by simp)
  | @ignored q lexemes rest hq hrest ih =>
    cases text with
    | nil =>
      obtain ⟨-, rfl⟩ := List.cons.inj hwhole
      exact hrest
    | cons first text =>
      obtain ⟨rfl, hrest⟩ := List.cons.inj hwhole
      exact .ignored hq (ih hrest)
  | @comment body lexemes rest hbody hend hrest ih =>
    cases text with
    | nil =>
      rw [(List.cons.inj hwhole).1] at hp
      exact absurd hp (by decide)
    | cons first text =>
      obtain ⟨rfl, hinside⟩ := List.cons.inj hwhole
      change text ++ [p] = body ++ rest at hinside
      rcases List.eq_nil_or_concat' rest with rfl | ⟨rest, last, rfl⟩
      · -- the text ends inside the comment
        rw [List.append_nil] at hinside
        have hshorter : ∀ q ∈ text, isLineEnd q = false ∧ q.isHalf = false :=
          fun q hq => hbody q (hinside ▸ List.mem_append_left [p] hq)
        have hcomment := Layout.comment hshorter hend hrest
        rwa [List.append_nil] at hcomment
      · -- the blank is the end of what comes behind the comment
        rw [← List.append_assoc] at hinside
        obtain ⟨rfl, hlast⟩ := List.append_inj' hinside rfl
        exact .comment hbody (fun q hq => hend q (head?_append_singleton hq))
          (ih (by rw [List.singleton_inj.mp hlast]))
  | @lexeme lexeme spelling lexemes rest hspelled hapart _ ih =>
    rcases List.eq_nil_or_concat' rest with rfl | ⟨rest, last, rfl⟩
    · -- the last point would belong to the spelling
      rw [List.append_nil] at hwhole
      have hlast : p ∈ spelling := hwhole ▸ List.mem_append_right text List.mem_cons_self
      rw [(spelled_not_blank hspelled).2 p hlast] at hp
      exact absurd hp Bool.false_ne_true
    · rw [← List.append_assoc] at hwhole
      obtain ⟨rfl, hlast⟩ := List.append_inj' hwhole rfl
      exact .lexeme hspelled (fun hname q hq => hapart hname q (head?_append_singleton hq))
        (ih (by rw [List.singleton_inj.mp hlast]))

theorem trimStart {lexemes : List Lexeme} {text : Text} (h : Layout lexemes text) :
    Layout lexemes (Text.trimStart text) := by
  induction text with
  | nil => exact h
  | cons p rest ih =>
    unfold Text.trimStart at ih ⊢
    by_cases hp : Text.isBlank p = true
    · rw [List.dropWhile_cons_of_pos hp]
      exact ih (h.tail hp)
    · rw [List.dropWhile_cons_of_neg hp]
      exact h

theorem trimEnd {lexemes : List Lexeme} {text : Text} (h : Layout lexemes text) :
    Layout lexemes (Text.trimEnd text) := by
  induction text using List.reverseRecOn with
  | nil => exact h
  | append_singleton text p ih =>
    unfold Text.trimEnd at ih ⊢
    rw [List.reverse_append, List.reverse_singleton, List.singleton_append]
    by_cases hp : Text.isBlank p = true
    · rw [List.dropWhile_cons_of_pos hp]
      exact ih (h.dropLast hp)
    · rw [List.dropWhile_cons_of_neg hp, List.reverse_cons, List.reverse_reverse]
      exact h

/-- Trimming leaves a layout of the same lexemes: blanks at the ends belong to no token. -/
theorem trim {lexemes : List Lexeme} {text : Text} (h : Layout lexemes text) :
    Layout lexemes (Text.trim text) := h.trimStart.trimEnd

end Layout

/-! ## 5. A layout of any lexemes -/

/-- The spellings of lexemes with a space behind each of them. -/
def spaced (lexemes : List Lexeme) : Text :=
  lexemes.flatMap fun lexeme => lexeme.spelling ++ [.char ' ']

/-- Lexemes that can be spelled have a layout. -/
theorem layout_spaced {lexemes : List Lexeme}
    (h : ∀ lexeme ∈ lexemes, Spelled lexeme lexeme.spelling) : Layout lexemes (spaced lexemes) := by
  induction lexemes with
  | nil => exact .nil
  | cons lexeme rest ih =>
    have hrest : Layout rest (spaced rest) :=
      ih fun other hother => h other (List.mem_cons_of_mem lexeme hother)
    have hspace : Layout rest (.char ' ' :: spaced rest) := .ignored (by decide) hrest
    unfold spaced
    rw [List.flatMap_cons, List.append_assoc, List.singleton_append]
    -- the space keeps a name apart from the next one
    refine .lexeme (h lexeme List.mem_cons_self) ?_ hspace
    rintro - p hp
    obtain rfl := Option.mem_some_iff.mp hp
    decide

end FieldAudit.GraphQL
