import FieldAudit.Proofs.Entries
import FieldAudit.Proofs.Json.Spelled

/-!
What is written is read back. A value without fractions whose objects name every member once is
written as a text that reads as the value, by a reader with limits that the value keeps
(`readWithin_render`), so different values of that kind are written differently
(`render_injective`). The induction is over the value: its text, wherever it is followed by
something that no number goes on in, reads as the value and leaves what follows.
-/

set_option autoImplicit false

namespace FieldAudit.Json

/-! ## 1. The text of a value -/

/-- The text of a value whose lines stand at a level of indentation. -/
def spelled (level : Nat) (value : Value) : Text := (strokes level value).flatten

/-- The text of items, the first of which follows a lead. -/
def spelledItems (level : Nat) (lead : Text) (items : List Value) : Text :=
  (strokesOfItems level lead items).flatten

/-- The text of members, the first of which follows a lead. -/
def spelledMembers (level : Nat) (lead : Text) (members : List (Text × Value)) : Text :=
  (strokesOfMembers level lead members).flatten

theorem render_eq (value : Value) : render value = spelled 0 value := rfl

theorem spelled_of_plain? {value : Value} {written : Text} (h : plain? value = some written)
    (level : Nat) :
    spelled level value = written := by
  have hstrokes : strokes level value = [written] := by
    cases value with
    | array items => simp [plain?] at h
    | object members => simp [plain?] at h
    | null | bool | int | float | string =>
      rw [strokes, h]
      · rfl
      all_goals simp
  rw [spelled, hstrokes, List.flatten_cons, List.flatten_nil, List.append_nil]

theorem spelledItems_nil (level : Nat) (lead : Text) : spelledItems level lead [] = [] := rfl

theorem spelledMembers_nil (level : Nat) (lead : Text) : spelledMembers level lead [] = [] := rfl

theorem spelledItems_cons (level : Nat) (lead : Text) (item : Value) (items : List Value) :
    spelledItems level lead (item :: items)
      = lead ++ (spelled level item ++ spelledItems level (',' :: indentation level) items) := by
  unfold spelledItems
  rw [strokesOfItems, List.flatten_append]
  cases hplain : plain? item with
  | some written =>
    rw [spelled_of_plain? hplain, List.flatten_cons, List.flatten_nil, List.append_nil,
      List.append_assoc]
  | none => rw [List.flatten_cons, List.append_assoc, spelled]

theorem spelledMembers_cons (level : Nat) (lead name : Text) (value : Value)
    (members : List (Text × Value)) :
    spelledMembers level lead ((name, value) :: members)
      = lead ++ (writeText name ++ (Point.char ':' :: Point.char ' ' :: (spelled level value
        ++ spelledMembers level (',' :: indentation level) members))) := by
  unfold spelledMembers
  rw [strokesOfMembers, List.flatten_cons, List.flatten_cons, List.flatten_cons,
    List.flatten_append, spelled]
  rfl

theorem spelled_array (level : Nat) (item : Value) (items : List Value) :
    spelled level (.array (item :: items))
      = Point.char '[' :: (indentation (level + 1) ++ (spelled (level + 1) item
        ++ (spelledItems (level + 1) (',' :: indentation (level + 1)) items
          ++ (indentation level ++ [Point.char ']'])))) := by
  rw [spelled, strokes, List.flatten_append, ← spelledItems, spelledItems_cons]
  simp only [List.cons_append, List.append_assoc, List.flatten_cons, List.flatten_nil,
    List.append_nil]
  rfl

theorem spelled_object (level : Nat) (name : Text) (value : Value) (members : List (Text × Value)) :
    spelled level (.object ((name, value) :: members))
      = Point.char '\x7b' :: (indentation (level + 1) ++ (writeText name
        ++ (Point.char ':' :: Point.char ' ' :: (spelled (level + 1) value
          ++ (spelledMembers (level + 1) (',' :: indentation (level + 1)) members
            ++ (indentation level ++ [Point.char '\x7d'])))))) := by
  rw [spelled, strokes, List.flatten_cons, List.flatten_append, ← spelledMembers,
    spelledMembers_cons]
  simp only [List.cons_append, List.append_assoc, List.flatten_cons, List.flatten_nil,
    List.append_nil]
  rfl

/-! ## 2. Space -/

theorem skipSpace_of_not_isSpace {p : Point} (h : isSpace p = false) (t : Text) :
    skipSpace (p :: t) = p :: t :=
  List.dropWhile_cons_of_neg (by rw [h]; exact Bool.false_ne_true)

theorem skipSpace_indentation (level : Nat) (t : Text) :
    skipSpace (indentation level ++ t) = skipSpace t := by
  unfold skipSpace
  rw [List.dropWhile_append_of_pos]
  intro p hp
  rcases List.mem_cons.mp hp with rfl | hp
  · rfl
  · rw [List.eq_of_mem_replicate hp]
    rfl

theorem ends_indentation (level : Nat) (t : Text) : Ends (indentation level ++ t) := ends_lineFeed _

/-! ## 3. The steps of the readers -/

section Steps

variable {limit levels fuel : Nat} {t after rest : Text} {value : Value}

theorem readItems_last (hvalue : readValue limit levels fuel t = .ok (value, after))
    (hskip : skipSpace after = Point.char ']' :: rest) :
    readItems limit levels (fuel + 1) t = .ok ([value], rest) := by
  rw [readItems, hvalue]
  dsimp only
  rw [hskip]
  rfl

theorem readItems_more (hvalue : readValue limit levels fuel t = .ok (value, after))
    (hskip : skipSpace after = Point.char ',' :: rest) :
    readItems limit levels (fuel + 1) t
      = (readItems limit levels fuel (skipSpace rest)).map fun (items, r) =>
        (value :: items, r) := by
  rw [readItems, hvalue]
  dsimp only
  rw [hskip]
  rfl

/-- A member is read from its name on, and then its value. -/
theorem readMembers_succ (name : Text) (fuel : Nat) (t : Text) :
    readMembers limit levels (fuel + 1) (writeText name ++ (Point.char ':' :: Point.char ' ' :: t))
      = match readValue limit levels fuel (skipSpace t) with
        | .error stop => .error stop
        | .ok (value, after) =>
          match skipSpace after with
          | .char '\x7d' :: r => .ok ([(name, value)], r)
          | .char ',' :: r =>
            (readMembers limit levels fuel (skipSpace r)).map fun (members, r) =>
              ((name, value) :: members, r)
          | r => .error ⟨.comma, r.length⟩ := by
  rw [writeText_append, readMembers, readText_writeText]
  rfl

theorem readMembers_last (name : Text) (hopens : skipSpace t = t)
    (hvalue : readValue limit levels fuel t = .ok (value, after))
    (hskip : skipSpace after = Point.char '\x7d' :: rest) :
    readMembers limit levels (fuel + 1) (writeText name ++ (Point.char ':' :: Point.char ' ' :: t))
      = .ok ([(name, value)], rest) := by
  rw [readMembers_succ, hopens, hvalue]
  dsimp only
  rw [hskip]
  rfl

theorem readMembers_more (name : Text) (hopens : skipSpace t = t)
    (hvalue : readValue limit levels fuel t = .ok (value, after))
    (hskip : skipSpace after = Point.char ',' :: rest) :
    readMembers limit levels (fuel + 1) (writeText name ++ (Point.char ':' :: Point.char ' ' :: t))
      = (readMembers limit levels fuel (skipSpace rest)).map fun (members, r) =>
        ((name, value) :: members, r) := by
  rw [readMembers_succ, hopens, hvalue]
  dsimp only
  rw [hskip]
  rfl

end Steps

/-! ## 4. Items and members -/

/-- A point that a value can start with, and that neither ends a list nor marks an order of
bytes. -/
def Opens (p : Point) : Prop := isSpace p = false ∧ p ≠ ']' ∧ p ≠ '\uFEFF'

/-- The text of the value at a level reads as the value, wherever it stands before the end of a
number. -/
structure ReadsBack (limit levels level : Nat) (value : Value) : Prop where
  opens : ∃ p t, spelled level value = p :: t ∧ Opens p
  reads : ∀ rest fuel, Ends rest → 2 * (spelled level value).length ≤ fuel →
    readValue limit levels fuel (spelled level value ++ rest) = .ok (value, rest)

section ReadsBack

variable {limit levels level : Nat} {value : Value}

theorem ReadsBack.opens_append (h : ReadsBack limit levels level value) (rest : Text) :
    ∃ p t, spelled level value ++ rest = p :: t ∧ Opens p := by
  obtain ⟨p, t, hspelled, hopens⟩ := h.opens
  exact ⟨p, t ++ rest, by rw [hspelled, List.cons_append], hopens⟩

theorem ReadsBack.skipSpace (h : ReadsBack limit levels level value) (rest : Text) :
    Json.skipSpace (spelled level value ++ rest) = spelled level value ++ rest := by
  obtain ⟨p, t, hspelled, hspace, -⟩ := h.opens_append rest
  rw [hspelled, skipSpace_of_not_isSpace hspace]

theorem ReadsBack.length_pos (h : ReadsBack limit levels level value) :
    0 < (spelled level value).length := by
  obtain ⟨p, t, hspelled, -⟩ := h.opens
  rw [hspelled]
  exact Nat.succ_pos _

/-- Items that read back are read up to the closing bracket. By induction on the items behind the
first one; a step of the reader takes one unit of fuel, and an item with what leads to it is long
enough to pay for it. -/
theorem readItems_spelled (outer : Nat) (rest : Text) {items : List Value}
    (hitems : ∀ item ∈ items, ReadsBack limit levels level item)
    (hvalue : ReadsBack limit levels level value) {fuel : Nat}
    (hfuel : 2 * (spelled level value ++ spelledItems level (',' :: indentation level) items).length
      < fuel) :
    readItems limit levels fuel (spelled level value
        ++ (spelledItems level (',' :: indentation level) items
          ++ (indentation outer ++ Point.char ']' :: rest)))
      = .ok (value :: items, rest) := by
  induction items generalizing value fuel with
  | nil =>
    obtain ⟨fuel, rfl⟩ := Nat.exists_eq_add_one.mpr (Nat.zero_lt_of_lt hfuel)
    rw [List.length_append] at hfuel
    refine readItems_last (hvalue.reads _ _ (ends_indentation outer _) (by omega)) ?_
    rw [spelledItems_nil, List.nil_append, skipSpace_indentation,
      skipSpace_of_not_isSpace (by decide)]
  | cons item items ih =>
    obtain ⟨fuel, rfl⟩ := Nat.exists_eq_add_one.mpr (Nat.zero_lt_of_lt hfuel)
    obtain ⟨hitem, hitems⟩ := List.forall_mem_cons.mp hitems
    have hpos := hvalue.length_pos
    rw [spelledItems_cons] at hfuel ⊢
    simp only [List.length_append, List.length_cons] at hfuel
    have hmore := @ih item hitems hitem fuel (by rw [List.length_append]; omega)
    simp only [List.cons_append, List.append_assoc]
    rw [readItems_more (hvalue.reads _ _ (ends_comma _) (by omega))
      (skipSpace_of_not_isSpace (by decide) _), skipSpace_indentation, hitem.skipSpace, hmore]
    rfl

/-- Members whose values read back are read up to the closing brace. -/
theorem readMembers_spelled (outer : Nat) (rest : Text) {members : List (Text × Value)}
    (hmembers : ∀ member ∈ members, ReadsBack limit levels level member.2) (name : Text)
    (hvalue : ReadsBack limit levels level value) {fuel : Nat}
    (hfuel : 2 * (spelled level value
      ++ spelledMembers level (',' :: indentation level) members).length < fuel) :
    readMembers limit levels fuel (writeText name
      ++ (Point.char ':' :: Point.char ' ' :: (spelled level value
        ++ (spelledMembers level (',' :: indentation level) members
          ++ (indentation outer ++ Point.char '\x7d' :: rest)))))
      = .ok ((name, value) :: members, rest) := by
  induction members generalizing name value fuel with
  | nil =>
    obtain ⟨fuel, rfl⟩ := Nat.exists_eq_add_one.mpr (Nat.zero_lt_of_lt hfuel)
    rw [List.length_append] at hfuel
    refine readMembers_last name (hvalue.skipSpace _)
      (hvalue.reads _ _ (ends_indentation outer _) (by omega)) ?_
    rw [spelledMembers_nil, List.nil_append, skipSpace_indentation,
      skipSpace_of_not_isSpace (by decide)]
  | cons member members ih =>
    obtain ⟨nextName, next⟩ := member
    obtain ⟨fuel, rfl⟩ := Nat.exists_eq_add_one.mpr (Nat.zero_lt_of_lt hfuel)
    obtain ⟨hnext, hmembers⟩ := List.forall_mem_cons.mp hmembers
    have hpos := hvalue.length_pos
    rw [spelledMembers_cons] at hfuel ⊢
    simp only [List.length_append, List.length_cons] at hfuel
    have hmore := @ih next hmembers nextName hnext fuel (by rw [List.length_append]; omega)
    simp only [List.cons_append, List.append_assoc]
    rw [readMembers_more name (hvalue.skipSpace _) (hvalue.reads _ _ (ends_comma _) (by omega))
      (skipSpace_of_not_isSpace (by decide) _), skipSpace_indentation, writeText_append,
      skipSpace_of_not_isSpace (by decide), ← writeText_append, hmore]
    rfl

end ReadsBack

/-! ## 5. Values -/

/-- A value without fractions that keeps limits: its texts and names are of a kind, its whole
numbers have at most as many digits as one limit says, as many lists and objects may stand inside
each other as the other says, and no object names a member twice. -/
inductive Fits (kept : Text → Prop) (limit : Nat) : Nat → Value → Prop
  | null {levels : Nat} : Fits kept limit levels .null
  | bool {levels : Nat} (b : Bool) : Fits kept limit levels (.bool b)
  | int {levels : Nat} {n : Int} (hlimit : (Text.ofNat n.natAbs).length ≤ limit) :
      Fits kept limit levels (.int n)
  | string {levels : Nat} {t : Text} (hkept : kept t) : Fits kept limit levels (.string t)
  | array {levels : Nat} {items : List Value}
      (hitems : ∀ item ∈ items, Fits kept limit levels item) :
      Fits kept limit (levels + 1) (.array items)
  | object {levels : Nat} {members : List (Text × Value)} (hkeys : (Entries.keys members).Nodup)
      (hkept : ∀ member ∈ members, kept member.1)
      (hvalues : ∀ member ∈ members, Fits kept limit levels member.2) :
      Fits kept limit (levels + 1) (.object members)

section Values

variable {limit levels : Nat}

/-- A point that starts no text, list or object starts a plain value. -/
theorem readValue_plain {p : Point} (hp : p ≠ '\x22' ∧ p ≠ '[' ∧ p ≠ '\x7b') (fuel : Nat)
    (t : Text) :
    readValue limit levels (fuel + 1) (p :: t) = readPlain limit (p :: t) := by
  obtain ⟨hquote, hbracket, hbrace⟩ := hp
  rw [readValue]
  · exact fun _ h => hquote (List.cons.inj h).1
  · exact fun _ h => absurd (List.cons.inj h).1 hbracket
  · exact fun _ _ h => absurd (List.cons.inj h).1 hbracket
  · exact fun _ h => absurd (List.cons.inj h).1 hbrace
  · exact fun _ _ h => absurd (List.cons.inj h).1 hbrace

/-- A plain value reads back if its text, which starts as no other value does, is read as the
value. -/
theorem readsBack_of_plain {value : Value} {p : Point} {t : Text}
    (hplain : plain? value = some (p :: t)) (hopens : Opens p)
    (hp : p ≠ '\x22' ∧ p ≠ '[' ∧ p ≠ '\x7b')
    (hread : ∀ rest, Ends rest → readPlain limit (p :: t ++ rest) = .ok (value, rest))
    (level : Nat) :
    ReadsBack limit levels level value where
  opens := ⟨p, t, spelled_of_plain? hplain level, hopens⟩
  reads := by
    intro rest fuel hrest hfuel
    rw [spelled_of_plain? hplain] at hfuel ⊢
    obtain ⟨fuel, rfl⟩ := Nat.exists_eq_add_one.mpr (Nat.lt_of_lt_of_le (by simp) hfuel)
    rw [List.cons_append, readValue_plain hp, ← List.cons_append, hread rest hrest]

theorem readsBack_int {n : Int} (hlimit : (Text.ofNat n.natAbs).length ≤ limit) (level : Nat) :
    ReadsBack limit levels level (.int n) := by
  have hread : ∀ rest, Ends rest → readPlain limit (Text.ofInt n ++ rest) = .ok (.int n, rest) :=
    fun rest hrest => readPlain_ofInt hlimit hrest
  have hplain : plain? (.int n) = some (Text.ofInt n) := rfl
  -- the text starts with a digit or a sign
  have hcases : ∃ p t, Text.ofInt n = p :: t ∧ (isDigit p = true ∨ p = '-') := by
    obtain ⟨p, t, hdigits, hp, -⟩ := exists_ofNat_cons n.natAbs
    unfold Text.ofInt
    split
    · exact ⟨'-', _, rfl, .inr rfl⟩
    · exact ⟨p, t, hdigits, .inl hp⟩
  obtain ⟨p, t, hspelled, hp⟩ := hcases
  rw [hspelled] at hread hplain
  have hne : ∀ c : Char, isDigit c = false → c ≠ '-' → p ≠ c := by
    rintro c hc hminus rfl
    rcases hp with hdigit | hsign
    · rw [hc] at hdigit
      simp at hdigit
    · exact hminus (Point.char.inj hsign)
  have hopens : Opens p := by
    refine ⟨?_, hne _ (by decide) (by decide), hne _ (by decide) (by decide)⟩
    simp [isSpace, hne ' ' (by decide) (by decide), hne '\t' (by decide) (by decide),
      hne '\n' (by decide) (by decide), hne '\r' (by decide) (by decide)]
  exact readsBack_of_plain hplain hopens
    ⟨hne _ (by decide) (by decide), hne _ (by decide) (by decide), hne _ (by decide) (by decide)⟩
    hread level

theorem readsBack_string (t : Text) (level : Nat) : ReadsBack limit levels level (.string t) where
  opens := ⟨'\x22', _, spelled_of_plain? rfl level, by decide, by decide, by decide⟩
  reads := by
    intro rest fuel _ hfuel
    have hspelled : spelled level (.string t) = writeText t := spelled_of_plain? rfl level
    rw [hspelled] at hfuel ⊢
    obtain ⟨fuel, rfl⟩ := Nat.exists_eq_add_one.mpr (Nat.lt_of_lt_of_le (by simp [writeText]) hfuel)
    rw [writeText_append, readValue, readText_writeText]
    rfl

/-- A list is read from its first item on. -/
theorem readValue_array {t : Text} (hopens : ∃ p more, t = p :: more ∧ Opens p) (level fuel : Nat) :
    readValue limit (levels + 1) (fuel + 1) ('[' :: (indentation level ++ t))
      = (readItems limit levels fuel t).map fun (items, r) => (.array items, r) := by
  obtain ⟨p, more, rfl, hspace, hbracket, -⟩ := hopens
  rw [readValue, skipSpace_indentation, skipSpace_of_not_isSpace hspace]
  split
  · next h => exact absurd (List.cons.inj h).1 hbracket
  · rfl

/-- An object is read from its first member on. -/
theorem readValue_object (name t : Text) (level fuel : Nat) :
    readValue limit (levels + 1) (fuel + 1) ('\x7b' :: (indentation level ++ (writeText name ++ t)))
      = (readMembers limit levels fuel (writeText name ++ t)).map fun (members, r) =>
          (.object (Entries.ofPairs members), r) := by
  rw [readValue, skipSpace_indentation, writeText_append, skipSpace_of_not_isSpace (by decide)]
  rfl

/-- A list of values that read back reads back. -/
theorem readsBack_array {items : List Value}
    (hitems : ∀ item ∈ items, ∀ level, ReadsBack limit levels level item) (level : Nat) :
    ReadsBack limit (levels + 1) level (.array items) := by
  cases items with
  | nil =>
    have hspelled : spelled level (.array []) = Text.ofString "[]" := rfl
    refine ⟨⟨'[', _, hspelled, by decide, by decide, by decide⟩, ?_⟩
    intro rest fuel _ hfuel
    rw [hspelled] at hfuel ⊢
    obtain ⟨fuel, rfl⟩ := Nat.exists_eq_add_one.mpr (Nat.lt_of_lt_of_le (by decide) hfuel)
    rfl
  | cons item items =>
    obtain ⟨hitem, hitems⟩ := List.forall_mem_cons.mp hitems
    have hspelled := spelled_array level item items
    refine ⟨⟨'[', _, hspelled, by decide, by decide, by decide⟩, ?_⟩
    intro rest fuel _ hfuel
    rw [hspelled] at hfuel ⊢
    simp only [List.length_cons, List.length_append] at hfuel
    obtain ⟨fuel, rfl⟩ := Nat.exists_eq_add_one.mpr (Nat.lt_of_lt_of_le (by omega) hfuel)
    have hread := @readItems_spelled limit levels (level + 1) item level rest items
      (fun other hother => hitems other hother (level + 1)) (hitem (level + 1)) fuel
      (by rw [List.length_append]; omega)
    simp only [List.cons_append, List.append_assoc, List.nil_append]
    rw [readValue_array ((hitem (level + 1)).opens_append _), hread]
    rfl

/-- An object of values that read back reads back if it names no member twice. -/
theorem readsBack_object {members : List (Text × Value)} (hkeys : (Entries.keys members).Nodup)
    (hmembers : ∀ member ∈ members, ∀ level, ReadsBack limit levels level member.2) (level : Nat) :
    ReadsBack limit (levels + 1) level (.object members) := by
  cases members with
  | nil =>
    have hspelled : spelled level (.object []) = Text.ofString "\x7b\x7d" := rfl
    refine ⟨⟨'\x7b', _, hspelled, by decide, by decide, by decide⟩, ?_⟩
    intro rest fuel _ hfuel
    rw [hspelled] at hfuel ⊢
    obtain ⟨fuel, rfl⟩ := Nat.exists_eq_add_one.mpr (Nat.lt_of_lt_of_le (by decide) hfuel)
    rfl
  | cons member members =>
    obtain ⟨name, value⟩ := member
    obtain ⟨hvalue, hmembers⟩ := List.forall_mem_cons.mp hmembers
    have hspelled := spelled_object level name value members
    refine ⟨⟨'\x7b', _, hspelled, by decide, by decide, by decide⟩, ?_⟩
    intro rest fuel _ hfuel
    rw [hspelled] at hfuel ⊢
    simp only [List.length_cons, List.length_append] at hfuel
    obtain ⟨fuel, rfl⟩ := Nat.exists_eq_add_one.mpr (Nat.lt_of_lt_of_le (by omega) hfuel)
    have hread := @readMembers_spelled limit levels (level + 1) value level rest members
      (fun other hother => hmembers other hother (level + 1)) name (hvalue (level + 1)) fuel
      (by rw [List.length_append]; omega)
    simp only [List.cons_append, List.append_assoc, List.nil_append]
    rw [readValue_object, hread, Except.map]
    dsimp only
    rw [Entries.ofPairs_of_nodup hkeys]

end Values

section Fitting

variable {kept : Text → Prop} {limit levels : Nat} {value : Value}

/-- **A value that fits reads back**, at any level of indentation. By induction on the value. -/
theorem Fits.readsBack (h : Fits kept limit levels value) (level : Nat) :
    ReadsBack limit levels level value := by
  induction h generalizing level with
  | null =>
    have hplain : plain? .null = some (Text.ofString "null") := rfl
    exact readsBack_of_plain hplain ⟨by decide, by decide, by decide⟩ (by decide)
      (fun rest _ => rfl) level
  | bool b =>
    cases b with
    | false =>
      have hplain : plain? (.bool false) = some (Text.ofString "false") := rfl
      exact readsBack_of_plain hplain ⟨by decide, by decide, by decide⟩ (by decide)
        (fun rest _ => rfl) level
    | true =>
      have hplain : plain? (.bool true) = some (Text.ofString "true") := rfl
      exact readsBack_of_plain hplain ⟨by decide, by decide, by decide⟩ (by decide)
        (fun rest _ => rfl) level
  | int hlimit => exact readsBack_int hlimit level
  | string => exact readsBack_string _ level
  | array _ ih => exact readsBack_array ih level
  | object hkeys _ _ ih => exact readsBack_object hkeys ih level

/-- **What is written is read back.** A value that fits is what its text reads as within the
limits. -/
theorem readWithin_render (h : Fits kept limit levels value) :
    readWithin limit levels (render value) = .ok value := by
  have hback := h.readsBack 0
  obtain ⟨p, t, hspelled, -, -, hmark⟩ := hback.opens
  have hhead : (render value).head? ≠ some '\uFEFF' := by
    rw [render_eq, hspelled]
    exact fun hfirst => hmark (Option.some.inj hfirst)
  have hread := hback.reads [] (2 * (render value).length + 2) ends_nil (by rw [render_eq]; omega)
  have hskip := hback.skipSpace []
  rw [List.append_nil, ← render_eq] at hread hskip
  rw [readWithin, if_neg hhead, hskip, hread]
  rfl

theorem Fits.mono {more deeper : Nat} (h : Fits kept limit levels value) (hmore : limit ≤ more)
    (hdeeper : levels ≤ deeper) : Fits kept more deeper value := by
  induction h generalizing deeper with
  | null => exact .null
  | bool b => exact .bool b
  | int hlimit => exact .int (Nat.le_trans hlimit hmore)
  | string hkept => exact .string hkept
  | array _ ih =>
    obtain ⟨deeper, rfl⟩ := Nat.exists_eq_add_one.mpr (Nat.lt_of_lt_of_le (Nat.succ_pos _) hdeeper)
    exact .array fun item hitem => ih item hitem (Nat.le_of_succ_le_succ hdeeper)
  | object hkeys hkept _ ih =>
    obtain ⟨deeper, rfl⟩ := Nat.exists_eq_add_one.mpr (Nat.lt_of_lt_of_le (Nat.succ_pos _) hdeeper)
    exact .object hkeys hkept fun member hmember =>
      ih member hmember (Nat.le_of_succ_le_succ hdeeper)

/-- Different values are written differently. -/
theorem render_injective {others more : Nat} {other : Value} (h : Fits kept limit levels value)
    (hother : Fits kept others more other) (hsame : render value = render other) :
    value = other := by
  have hread :=
    readWithin_render (h.mono (Nat.le_max_left limit others) (Nat.le_max_left levels more))
  rw [hsame,
    readWithin_render (hother.mono (Nat.le_max_right limit others)
      (Nat.le_max_right levels more))] at hread
  exact (Except.ok.inj hread).symm

/-- The text of items holds what the lead, the breaks and the items hold. -/
theorem forall_mem_spelledItems (good : Point → Prop) {level : Nat}
    (hbreak : ∀ p ∈ Point.char ',' :: indentation level, good p) {items : List Value}
    (hitems : ∀ item ∈ items, ∀ p ∈ spelled level item, good p) {lead : Text}
    (hlead : ∀ p ∈ lead, good p) :
    ∀ p ∈ spelledItems level lead items, good p := by
  induction items generalizing lead with
  | nil => exact fun p hp => absurd hp List.not_mem_nil
  | cons item items ih =>
    obtain ⟨hitem, hitems⟩ := List.forall_mem_cons.mp hitems
    rw [spelledItems_cons, List.forall_mem_append, List.forall_mem_append]
    exact ⟨hlead, hitem, ih hitems hbreak⟩

/-- The text of members holds what the lead, the breaks, the names in quotes and the values hold,
and what stands between a name and its value. -/
theorem forall_mem_spelledMembers (good : Point → Prop) {level : Nat}
    (hbreak : ∀ p ∈ Point.char ',' :: indentation level, good p) (hcolon : good ':' ∧ good ' ')
    {members : List (Text × Value)} (hnames : ∀ member ∈ members, ∀ p ∈ writeText member.1, good p)
    (hvalues : ∀ member ∈ members, ∀ p ∈ spelled level member.2, good p) {lead : Text}
    (hlead : ∀ p ∈ lead, good p) : ∀ p ∈ spelledMembers level lead members, good p := by
  induction members generalizing lead with
  | nil => exact fun p hp => absurd hp List.not_mem_nil
  | cons member members ih =>
    obtain ⟨name, value⟩ := member
    obtain ⟨hname, hnames⟩ := List.forall_mem_cons.mp hnames
    obtain ⟨hvalue, hvalues⟩ := List.forall_mem_cons.mp hvalues
    rw [spelledMembers_cons, List.forall_mem_append, List.forall_mem_append, List.forall_mem_cons,
      List.forall_mem_cons, List.forall_mem_append]
    exact ⟨hlead, hname, hcolon.1, hcolon.2, hvalue, ih hnames hvalues hbreak⟩

theorem isWhole_indentation (level : Nat) : Text.IsWhole (indentation level) := by
  intro p hp
  rcases List.mem_cons.mp hp with rfl | hp
  · rfl
  · rw [List.eq_of_mem_replicate hp]
    rfl

theorem isWhole_break (level : Nat) : Text.IsWhole (',' :: indentation level) :=
  List.forall_mem_cons.mpr ⟨rfl, isWhole_indentation level⟩

theorem isWhole_closing (level : Nat) (c : Char) :
    Text.IsWhole (indentation level ++ [Point.char c]) :=
  List.forall_mem_append.mpr ⟨isWhole_indentation level, List.forall_mem_singleton.mpr rfl⟩

theorem isWhole_ofInt (n : Int) : Text.IsWhole (Text.ofInt n) := by
  unfold Text.ofInt
  split
  · exact List.forall_mem_cons.mpr ⟨rfl, fun p hp => isHalf_of_mem_ofChars hp⟩
  · exact fun p hp => isHalf_of_mem_ofChars hp

theorem isWhole_spelled_array {items : List Value}
    (hitems : ∀ item ∈ items, ∀ level, Text.IsWhole (spelled level item)) (level : Nat) :
    Text.IsWhole (spelled level (.array items)) := by
  cases items with
  | nil => exact isWhole_ofString "[]"
  | cons item items =>
    obtain ⟨hitem, hitems⟩ := List.forall_mem_cons.mp hitems
    rw [spelled_array]
    refine List.forall_mem_cons.mpr ⟨rfl, List.forall_mem_append.mpr ⟨isWhole_indentation _, ?_⟩⟩
    refine List.forall_mem_append.mpr
      ⟨hitem _, List.forall_mem_append.mpr ⟨?_, isWhole_closing level ']'⟩⟩
    exact forall_mem_spelledItems _ (isWhole_break _) (fun other hother => hitems other hother _)
      (isWhole_break _)

theorem isWhole_spelled_object {members : List (Text × Value)}
    (hnames : ∀ member ∈ members, member.1.IsWhole)
    (hvalues : ∀ member ∈ members, ∀ level, Text.IsWhole (spelled level member.2)) (level : Nat) :
    Text.IsWhole (spelled level (.object members)) := by
  cases members with
  | nil => exact isWhole_ofString "\x7b\x7d"
  | cons member members =>
    obtain ⟨name, first⟩ := member
    obtain ⟨hname, hnames⟩ := List.forall_mem_cons.mp hnames
    obtain ⟨hfirst, hvalues⟩ := List.forall_mem_cons.mp hvalues
    rw [spelled_object]
    refine List.forall_mem_cons.mpr ⟨rfl, List.forall_mem_append.mpr ⟨isWhole_indentation _, ?_⟩⟩
    refine List.forall_mem_append.mpr ⟨isWhole_writeText hname, List.forall_mem_cons.mpr ⟨rfl, ?_⟩⟩
    refine List.forall_mem_cons.mpr ⟨rfl, List.forall_mem_append.mpr ⟨hfirst _, ?_⟩⟩
    refine List.forall_mem_append.mpr ⟨?_, isWhole_closing level '\x7d'⟩
    exact forall_mem_spelledMembers (fun p => p.isHalf = false) (isWhole_break _) ⟨rfl, rfl⟩
      (fun other hother => isWhole_writeText (hnames other hother))
      (fun other hother => hvalues other hother _) (isWhole_break _)

/-- The text of a value whose texts are whole is whole. -/
theorem Fits.isWhole_spelled (h : Fits Text.IsWhole limit levels value) (level : Nat) :
    Text.IsWhole (spelled level value) := by
  induction h generalizing level with
  | null => exact isWhole_ofString "null"
  | bool b =>
    cases b with
    | false => exact isWhole_ofString "false"
    | true => exact isWhole_ofString "true"
  | @int _ n _ =>
    have hspelled : spelled level (.int n) = Text.ofInt n := spelled_of_plain? rfl level
    rw [hspelled]
    exact isWhole_ofInt n
  | @string _ t hkept =>
    have hspelled : spelled level (.string t) = writeText t := spelled_of_plain? rfl level
    rw [hspelled]
    exact isWhole_writeText hkept
  | array _ ih => exact isWhole_spelled_array ih level
  | object _ hkept _ ih => exact isWhole_spelled_object hkept ih level

end Fitting

end FieldAudit.Json
