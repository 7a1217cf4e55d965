import FieldAudit.Proofs.Glob.Braces

/-!
What a pattern with brace alternatives stands for. A pattern is a row of points and of groups with
two alternatives or more, each of them a pattern again (`Braced`). It stands for the choices of one
alternative in every group (`Braced.choices`). Expansion of the written pattern finds these choices
and no others, and in their order if no group stands in another one (`expandBraces_written`).
-/

set_option autoImplicit false

namespace FieldAudit.Glob

/-! ## 1. Patterns -/

/-- A point that stands for itself: no brace, and inside a group no comma. -/
def IsLiteral (inside : Bool) (p : Point) : Prop := isPlain p = true ∧ (inside = true → p ≠ comma)

instance (inside : Bool) (p : Point) : Decidable (IsLiteral inside p) :=
  inferInstanceAs (Decidable (isPlain p = true ∧ (inside = true → p ≠ comma)))

mutual

/-- A pattern with brace alternatives, inside a group or not. -/
inductive Braced : Bool → Type
  | done {inside : Bool} : Braced inside
  | point {inside : Bool} (p : Point) (h : IsLiteral inside p) (rest : Braced inside) :
      Braced inside
  /-- A group: a first alternative and others. -/
  | group {inside : Bool} (first : Braced true) (others : Others) (rest : Braced inside) :
      Braced inside

/-- The alternatives of a group but the first one, of which there is one at least. -/
inductive Others : Type
  | last (alternative : Braced true) : Others
  | more (alternative : Braced true) (others : Others) : Others

end

mutual

/-- The text of a pattern. -/
def Braced.written {inside : Bool} : Braced inside → Text
  | .done => []
  | .point p _ rest => p :: rest.written
  | .group first others rest =>
    opening :: (first.written ++ (others.written ++ closing :: rest.written))

/-- The text of alternatives, a comma before each. -/
def Others.written : Others → Text
  | .last alternative => comma :: alternative.written
  | .more alternative others => comma :: (alternative.written ++ others.written)

end

mutual

/-- The texts that a pattern stands for, one for each way to choose alternatives; the choice in the
first group changes last. -/
def Braced.choices {inside : Bool} : Braced inside → List Text
  | .done => [[]]
  | .point p _ rest => rest.choices.map (p :: ·)
  | .group first others rest =>
    (first.choices ++ others.choices).flatMap fun chosen => rest.choices.map (chosen ++ ·)

/-- The texts that one of the alternatives stands for. -/
def Others.choices : Others → List Text
  | .last alternative => alternative.choices
  | .more alternative others => alternative.choices ++ others.choices

end

/-- A pattern without groups. -/
def Braced.IsBare {inside : Bool} : Braced inside → Prop
  | .done => True
  | .point _ _ rest => rest.IsBare
  | .group _ _ _ => False

/-- Alternatives without groups. -/
def Others.IsBare : Others → Prop
  | .last alternative => alternative.IsBare
  | .more alternative others => alternative.IsBare ∧ others.IsBare

/-- A pattern in which no group stands in another one. -/
def Braced.IsFlat {inside : Bool} : Braced inside → Prop
  | .done => True
  | .point _ _ rest => rest.IsFlat
  | .group first others rest => first.IsBare ∧ others.IsBare ∧ rest.IsFlat

/-! ## 2. Choices -/

theorem IsLiteral.mono {inside : Bool} {p : Point} (h : IsLiteral true p) : IsLiteral inside p :=
  ⟨h.1, fun _ => h.2 rfl⟩

mutual

/-- A choice is made of points that stand for themselves. -/
theorem Braced.isLiteral_of_mem {inside : Bool} :
    ∀ (pattern : Braced inside) {chosen : Text}, chosen ∈ pattern.choices →
      ∀ p ∈ chosen, IsLiteral inside p
  | .done, chosen, h => by
    rw [Braced.choices, List.mem_singleton] at h
    rw [h]
    exact fun p hp => absurd hp List.not_mem_nil
  | .point q hq rest, chosen, h => by
    rw [Braced.choices] at h
    obtain ⟨chosen, hrest, rfl⟩ := List.mem_map.mp h
    exact List.forall_mem_cons.mpr ⟨hq, rest.isLiteral_of_mem hrest⟩
  | .group first others rest, chosen, h => by
    rw [Braced.choices] at h
    obtain ⟨one, hone, hmap⟩ := List.mem_flatMap.mp h
    obtain ⟨chosen, hrest, rfl⟩ := List.mem_map.mp hmap
    refine List.forall_mem_append.mpr ⟨?_, rest.isLiteral_of_mem hrest⟩
    intro p hp
    rcases List.mem_append.mp hone with hfirst | hothers
    · exact (first.isLiteral_of_mem hfirst p hp).mono
    · exact (others.isLiteral_of_mem hothers p hp).mono

theorem Others.isLiteral_of_mem :
    ∀ (others : Others) {chosen : Text}, chosen ∈ others.choices → ∀ p ∈ chosen, IsLiteral true p
  | .last alternative, chosen, h => alternative.isLiteral_of_mem (by rwa [Others.choices] at h)
  | .more alternative others, chosen, h => by
    rw [Others.choices] at h
    rcases List.mem_append.mp h with hfirst | hothers
    · exact alternative.isLiteral_of_mem hfirst
    · exact others.isLiteral_of_mem hothers

end

/-- Every pattern stands for something. -/
theorem Braced.exists_mem_choices {inside : Bool} :
    ∀ pattern : Braced inside, ∃ chosen, chosen ∈ pattern.choices
  | .done => ⟨[], by rw [Braced.choices]; exact List.mem_singleton_self []⟩
  | .point p _ rest => by
    obtain ⟨chosen, hrest⟩ := rest.exists_mem_choices
    rw [Braced.choices]
    exact ⟨p :: chosen, List.mem_map_of_mem hrest⟩
  | .group first others rest => by
    obtain ⟨one, hone⟩ := first.exists_mem_choices
    obtain ⟨chosen, hrest⟩ := rest.exists_mem_choices
    rw [Braced.choices]
    exact ⟨one ++ chosen,
      List.mem_flatMap.mpr ⟨one, List.mem_append_left _ hone, List.mem_map_of_mem hrest⟩⟩

theorem plain_of_isLiteral {inside : Bool} {t : Text} (h : ∀ p ∈ t, IsLiteral inside p) : Plain t :=
  fun p hp => (h p hp).1

/-- An alternative is a piece of its own. -/
theorem pieces_of_isLiteral {t : Text} (h : ∀ p ∈ t, IsLiteral true p) :
    Text.pieces comma t = [t] :=
  Text.pieces_of_not_mem fun hmem => (h comma hmem).2 rfl rfl

/-! ## 3. Expansion finds the choices -/

/-- One alternative after the other is replaced by a choice; in the end one of those made is
taken. -/
theorem exists_chosen_iff {before choices behind : List Text} (hne : ∃ chosen, chosen ∈ choices)
    (P : Text → Prop) :
    (∃ chosen ∈ choices, ∃ one ∈ before ++ [chosen] ++ behind, P one)
      ↔ ∃ one ∈ before ++ (choices ++ behind), P one := by
  obtain ⟨any, hany⟩ := hne
  simp only [List.mem_append, List.mem_singleton]
  constructor
  · rintro ⟨chosen, hchosen, one, (hbefore | rfl) | hbehind, hone⟩
    · exact ⟨one, .inl hbefore, hone⟩
    · exact ⟨one, .inr (.inl hchosen), hone⟩
    · exact ⟨one, .inr (.inr hbehind), hone⟩
  · rintro ⟨one, hbefore | hchosen | hbehind, hone⟩
    · exact ⟨any, hany, one, .inl (.inl hbefore), hone⟩
    · exact ⟨one, hchosen, one, .inl (.inr rfl), hone⟩
    · exact ⟨any, hany, one, .inr hbehind, hone⟩

/-- Behind a text without a group, a pattern may be replaced by its choices. -/
def Braced.Replaceable {inside : Bool} (pattern : Braced inside) : Prop :=
  ∀ {before : Text}, splitGroup before = none → ∀ behind result : Text,
    (result ∈ expandBraces (before ++ (pattern.written ++ behind))
      ↔ ∃ chosen ∈ pattern.choices, result ∈ expandBraces (before ++ (chosen ++ behind)))

/-- In a group that starts with a row of plain alternatives, the others may be replaced by their
choices, and the group by one of all these. -/
def Others.Replaceable (others : Others) : Prop :=
  ∀ {before : Text}, splitGroup before = none → ∀ {row : Text}, Plain row → ∀ behind result : Text,
    (result ∈ expandBraces (before ++ opening :: (row ++ (others.written ++ closing :: behind)))
      ↔ ∃ one ∈ Text.pieces comma row ++ others.choices,
        result ∈ expandBraces (before ++ (one ++ behind)))

theorem Braced.Replaceable.done {inside : Bool} : (Braced.done : Braced inside).Replaceable := by
  intro before _ behind result
  rw [Braced.written, Braced.choices]
  simp

/-- A point that stands for itself opens no group. -/
theorem splitGroup_concat {before : Text} (hbefore : splitGroup before = none) {inside : Bool}
    {p : Point} (hp : IsLiteral inside p) : splitGroup (before ++ [p]) = none := by
  refine splitGroup_append_of_not_mem hbefore fun hmem => ?_
  exact ((isPlain_iff p).mp hp.1).2 (List.mem_singleton.mp hmem).symm

theorem Braced.Replaceable.point {inside : Bool} {p : Point} (hp : IsLiteral inside p)
    {rest : Braced inside} (hrest : rest.Replaceable) : (Braced.point p hp rest).Replaceable := by
  intro before hbefore behind result
  have hmove : ∀ t : Text, before ++ (p :: t ++ behind) = before ++ [p] ++ (t ++ behind) := by simp
  rw [Braced.written, Braced.choices, hmove, hrest (splitGroup_concat hbefore hp) behind result]
  simp only [List.mem_map, exists_exists_and_eq_and, hmove]

/-- The choices in what follows a group are made behind the alternative that was taken in it. -/
theorem Braced.Replaceable.behind_group {inside : Bool} {first : Braced true} {others : Others}
    {rest : Braced inside} (hrest : rest.Replaceable) {before : Text}
    (hbefore : splitGroup before = none) (behind result : Text) {one : Text}
    (hone : one ∈ first.choices ++ others.choices) :
    result ∈ expandBraces (before ++ (one ++ (rest.written ++ behind)))
      ↔ ∃ last ∈ rest.choices, result ∈ expandBraces (before ++ (one ++ last ++ behind)) := by
  have hplain : Plain one := by
    rcases List.mem_append.mp hone with hfirst | hothers
    · exact plain_of_isLiteral (first.isLiteral_of_mem hfirst)
    · exact plain_of_isLiteral (others.isLiteral_of_mem hothers)
  have hnone := splitGroup_append_of_not_mem hbefore hplain.ne.2
  rw [← List.append_assoc, hrest hnone]
  simp only [List.append_assoc]

theorem Braced.Replaceable.group {inside : Bool} {first : Braced true} {others : Others}
    {rest : Braced inside} (hfirst : first.Replaceable) (hothers : others.Replaceable)
    (hrest : rest.Replaceable) :
    (Braced.group first others rest).Replaceable := by
  intro before hbefore behind result
  have hopen : splitGroup (before ++ [opening]) = none :=
    splitGroup_append_of_not_mem hbefore (by decide)
  have hmove (t : Text) :
      before ++ (opening :: (t ++ (others.written ++ closing :: rest.written)) ++ behind)
        = before ++ [opening]
          ++ (t ++ (others.written ++ closing :: (rest.written ++ behind))) := by
    simp
  have hback (t : Text) :
      before ++ [opening] ++ (t ++ (others.written ++ closing :: (rest.written ++ behind)))
        = before ++ opening
          :: (t ++ (others.written ++ closing :: (rest.written ++ behind))) := by
    simp
  -- the first alternative is replaced by a choice, then the others are, and one of them all is
  -- taken
  have hgroup : ∀ chosen ∈ first.choices,
      (result ∈ expandBraces (before ++ [opening]
          ++ (chosen ++ (others.written ++ closing :: (rest.written ++ behind))))
        ↔ ∃ one ∈ [] ++ [chosen] ++ others.choices,
          result ∈ expandBraces (before ++ (one ++ (rest.written ++ behind)))) := by
    intro chosen hchosen
    have hliteral := first.isLiteral_of_mem hchosen
    rw [hback, hothers hbefore (plain_of_isLiteral hliteral), pieces_of_isLiteral hliteral,
      List.nil_append]
  rw [Braced.written, Braced.choices, hmove, hfirst hopen,
    exists_congr fun chosen => and_congr_right (hgroup chosen),
    exists_chosen_iff first.exists_mem_choices, List.nil_append,
    exists_congr fun one => and_congr_right fun hone =>
      hrest.behind_group hbefore behind result hone]
  simp only [List.mem_flatMap, List.mem_map]
  constructor
  · rintro ⟨one, hone, last, hlast, hresult⟩
    exact ⟨one ++ last, ⟨one, hone, last, hlast, rfl⟩, hresult⟩
  · rintro ⟨_, ⟨one, hone, last, hlast, rfl⟩, hresult⟩
    exact ⟨one, hone, last, hlast, hresult⟩

/-- A row of alternatives with one more behind a comma. -/
theorem row_concat {row : Text} (hrow : Plain row) {chosen : Text}
    (hchosen : ∀ p ∈ chosen, IsLiteral true p) :
    Plain (row ++ comma :: chosen) ∧ comma ∈ row ++ comma :: chosen
      ∧ Text.pieces comma (row ++ comma :: chosen) = Text.pieces comma row ++ [chosen] := by
  refine ⟨?_, List.mem_append_right row List.mem_cons_self, ?_⟩
  · exact plain_append.mpr ⟨hrow, List.forall_mem_cons.mpr ⟨by decide, plain_of_isLiteral hchosen⟩⟩
  · rw [Text.pieces_append, pieces_of_isLiteral hchosen]

/-- One more alternative in a group that starts with a row of plain ones may be replaced by its
choices. -/
theorem Braced.Replaceable.behind_row {alternative : Braced true} (h : alternative.Replaceable)
    {before : Text} (hbefore : splitGroup before = none) {row : Text} (hrow : Plain row)
    (behind result : Text) :
    result ∈ expandBraces (before ++ opening :: (row ++ (comma :: (alternative.written ++ behind))))
      ↔ ∃ chosen ∈ alternative.choices,
        result ∈ expandBraces (before ++ opening :: (row ++ comma :: chosen ++ behind)) := by
  have hopen : splitGroup (before ++ opening :: (row ++ [comma])) = none := by
    refine splitGroup_append_of_not_mem hbefore ?_
    simpa using hrow.ne.2
  have hmove : ∀ t : Text, before ++ opening :: (row ++ (comma :: (t ++ behind)))
      = before ++ opening :: (row ++ [comma]) ++ (t ++ behind) := by simp
  rw [hmove, h hopen]
  simp only [← hmove, List.append_assoc, List.cons_append]

/-- With the last alternative a group is complete, and is resolved. -/
theorem Others.Replaceable.last {alternative : Braced true} (h : alternative.Replaceable) :
    (Others.last alternative).Replaceable := by
  intro before hbefore row hrow behind result
  have hgroup : ∀ chosen ∈ alternative.choices,
      (result ∈ expandBraces (before ++ opening :: (row ++ comma :: chosen ++ closing :: behind))
        ↔ ∃ one ∈ Text.pieces comma row ++ [chosen] ++ [],
          result ∈ expandBraces (before ++ (one ++ behind))) := by
    intro chosen hchosen
    obtain ⟨hplain, hcomma, hpieces⟩ := row_concat hrow (alternative.isLiteral_of_mem hchosen)
    rw [mem_expandBraces_iff (splitGroup_group hbefore hplain hcomma behind), hpieces,
      List.append_nil]
    simp only [List.append_assoc]
  rw [Others.written, Others.choices, List.cons_append, h.behind_row hbefore hrow,
    exists_congr fun chosen => and_congr_right (hgroup chosen),
    exists_chosen_iff alternative.exists_mem_choices, List.append_nil]

/-- An alternative that is replaced by a choice joins the row for those behind it. -/
theorem Others.Replaceable.more {alternative : Braced true} {others : Others}
    (h : alternative.Replaceable) (hothers : others.Replaceable) :
    (Others.more alternative others).Replaceable := by
  intro before hbefore row hrow behind result
  have hgroup : ∀ chosen ∈ alternative.choices,
      (result ∈ expandBraces
          (before ++ opening :: (row ++ comma :: chosen ++ (others.written ++ closing :: behind)))
        ↔ ∃ one ∈ Text.pieces comma row ++ [chosen] ++ others.choices,
          result ∈ expandBraces (before ++ (one ++ behind))) := by
    intro chosen hchosen
    obtain ⟨hplain, -, hpieces⟩ := row_concat hrow (alternative.isLiteral_of_mem hchosen)
    rw [hothers hbefore hplain, hpieces]
  rw [Others.written, Others.choices, List.cons_append, List.append_assoc,
    h.behind_row hbefore hrow, exists_congr fun chosen => and_congr_right (hgroup chosen),
    exists_chosen_iff alternative.exists_mem_choices]

mutual

theorem Braced.replaceable {inside : Bool} : ∀ pattern : Braced inside, pattern.Replaceable
  | .done => Braced.Replaceable.done
  | .point _ hp rest => Braced.Replaceable.point hp rest.replaceable
  | .group first others rest =>
    Braced.Replaceable.group first.replaceable others.replaceable rest.replaceable

theorem Others.replaceable : ∀ others : Others, others.Replaceable
  | .last alternative => Others.Replaceable.last alternative.replaceable
  | .more alternative others => Others.Replaceable.more alternative.replaceable others.replaceable

end

/-! ## 4. Patterns in which no group stands in another one -/

/-- A pattern without groups stands for its text. -/
theorem Braced.choices_of_isBare {inside : Bool} :
    ∀ {pattern : Braced inside}, pattern.IsBare → pattern.choices = [pattern.written]
  | .done, _ => by rw [Braced.choices, Braced.written]
  | .point p _ rest, h => by
    rw [Braced.IsBare] at h
    rw [Braced.choices, Braced.written, rest.choices_of_isBare h, List.map_singleton]
  | .group _ _ _, h => by
    rw [Braced.IsBare] at h
    exact h.elim

/-- Alternatives without groups are plain, and the pieces between their commas are their choices. -/
theorem Others.pieces_of_isBare :
    ∀ {others : Others}, others.IsBare → ∀ {row : Text}, Plain row →
      Plain (row ++ others.written) ∧ comma ∈ row ++ others.written
        ∧ Text.pieces comma (row ++ others.written) = Text.pieces comma row ++ others.choices
  | .last alternative, h, row, hrow => by
    rw [Others.IsBare] at h
    have hchoices := alternative.choices_of_isBare h
    have hliteral := alternative.isLiteral_of_mem (hchoices ▸ List.mem_singleton_self _)
    rw [Others.written, Others.choices, hchoices]
    exact row_concat hrow hliteral
  | .more alternative others, h, row, hrow => by
    rw [Others.IsBare] at h
    have hchoices := alternative.choices_of_isBare h.1
    have hliteral := alternative.isLiteral_of_mem (hchoices ▸ List.mem_singleton_self _)
    obtain ⟨hplain, hcomma, hpieces⟩ := row_concat hrow hliteral
    obtain ⟨hall, hcommas, hrest⟩ := others.pieces_of_isBare h.2 hplain
    have hmove : row ++ comma :: (alternative.written ++ others.written)
        = row ++ comma :: alternative.written ++ others.written := by simp
    rw [Others.written, Others.choices, hchoices, hmove]
    refine ⟨hall, hcommas, ?_⟩
    rw [hrest, hpieces, List.append_assoc]

/-- Behind a text without a group, a pattern in which no group stands in another one expands choice
by choice. -/
theorem Braced.expandBraces_of_isFlat {inside : Bool} :
    ∀ {pattern : Braced inside}, pattern.IsFlat →
      ∀ {before : Text}, splitGroup before = none → ∀ behind : Text,
      expandBraces (before ++ (pattern.written ++ behind))
        = (pattern.choices.flatMap fun chosen =>
          expandBraces (before ++ (chosen ++ behind))).eraseDups
  | .done, _, before, _, behind => by
    rw [Braced.written, Braced.choices, List.flatMap_singleton]
    exact (eraseDups_of_nodup (nodup_expandBraces _)).symm
  | .point p hp rest, h, before, hbefore, behind => by
    rw [Braced.IsFlat] at h
    have hnone := splitGroup_concat hbefore hp
    have hmove : ∀ t : Text, before ++ (p :: t ++ behind) = before ++ [p] ++ (t ++ behind) := by
      simp
    rw [Braced.written, Braced.choices, hmove, rest.expandBraces_of_isFlat h hnone behind,
      List.flatMap_map]
    simp only [hmove]
  | .group first others rest, h, before, hbefore, behind => by
    rw [Braced.IsFlat] at h
    obtain ⟨hfirst, hothers, hrest⟩ := h
    have hchoices := first.choices_of_isBare hfirst
    have hliteral := first.isLiteral_of_mem (hchoices ▸ List.mem_singleton_self _)
    obtain ⟨hplain, hcomma, hpieces⟩ :=
      others.pieces_of_isBare hothers (plain_of_isLiteral hliteral)
    have hmove :
        before ++ (opening :: (first.written ++ (others.written ++ closing :: rest.written))
          ++ behind)
        = before ++ opening
          :: (first.written ++ others.written ++ closing :: (rest.written ++ behind)) := by
      simp
    rw [pieces_of_isLiteral hliteral, ← hchoices] at hpieces
    rw [Braced.written, Braced.choices, hmove,
      expandBraces_of_some (splitGroup_group hbefore hplain hcomma (rest.written ++ behind)),
      hpieces, List.flatMap_assoc]
    refine eraseDups_flatMap_congr ?_
    intro one hone
    -- what follows the group expands choice by choice behind the alternative that was taken
    have hnone : splitGroup (before ++ one) = none := by
      refine splitGroup_append_of_not_mem hbefore fun hmem => hplain.ne.2 ?_
      rw [← hpieces] at hone
      exact Text.mem_of_mem_pieces hone hmem
    rw [rest.expandBraces_of_isFlat hrest hnone behind, List.flatMap_map]
    simp only [List.append_assoc]
    exact eraseDups_of_nodup (nodup_eraseDups _)

/-! ## 5. The whole pattern -/

/-- **Expansion finds the choices.** The results of a written pattern are the texts that the pattern
stands for, each of them once. If no group stands in another one, they come in the order of the
choices, later repetitions dropped. -/
theorem expandBraces_written (pattern : Braced false) :
    (∀ t, t ∈ expandBraces pattern.written ↔ t ∈ pattern.choices)
      ∧ (expandBraces pattern.written).Nodup
      ∧ (pattern.IsFlat → expandBraces pattern.written = pattern.choices.eraseDups) := by
  have hself : ∀ chosen ∈ pattern.choices, expandBraces ([] ++ (chosen ++ [])) = [chosen] := by
    intro chosen hchosen
    have hplain := plain_of_isLiteral (pattern.isLiteral_of_mem hchosen)
    rw [List.append_nil]
    exact expandBraces_of_none (splitGroup_append_of_not_mem rfl hplain.ne.2)
  have hwhole : [] ++ (pattern.written ++ []) = pattern.written := List.append_nil _
  refine ⟨?_, nodup_expandBraces _, ?_⟩
  · intro t
    rw [← hwhole, pattern.replaceable rfl]
    constructor
    · rintro ⟨chosen, hchosen, ht⟩
      rw [hself chosen hchosen, List.mem_singleton] at ht
      rwa [ht]
    · intro ht
      exact ⟨t, ht, by rw [hself t ht]; exact List.mem_singleton_self t⟩
  · intro hflat
    rw [← hwhole, pattern.expandBraces_of_isFlat hflat rfl, List.flatMap_congr hself,
      List.flatMap_singleton']

/-- Two groups in a row, with an empty alternative in the second one. -/
def twoGroups : Braced false :=
  .group (.point 'a' (by decide) .done) (.last (.point 'b' (by decide) .done))
    (.point '/' (by decide) (.group (.point 'c' (by decide) .done) (.last .done) .done))

/-- The first group changes last. -/
theorem expandBraces_written_twoGroups :
    twoGroups.written = Text.ofString "\x7ba,b\x7d/\x7bc,\x7d" ∧ twoGroups.IsFlat
      ∧ expandBraces twoGroups.written = ["a/c", "a/", "b/c", "b/"] := by
  have hflat : twoGroups.IsFlat := ⟨trivial, trivial, trivial, trivial, trivial⟩
  refine ⟨by decide, hflat, ?_⟩
  rw [(expandBraces_written twoGroups).2.2 hflat]
  decide

/-- An alternative without the inner group comes once, though it is found once for each choice in
that group. -/
example : expandBraces "src/\x7ba,\x7bb,c\x7d\x7d.ts" = ["src/a.ts", "src/b.ts", "src/c.ts"] := by
  decide

end FieldAudit.Glob
