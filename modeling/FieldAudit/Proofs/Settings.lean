import FieldAudit.Proofs.Attempt
import FieldAudit.Proofs.FileTree
import FieldAudit.Proofs.FileTree.Normal
import FieldAudit.Proofs.Json.Part
import FieldAudit.Settings

/-!
What reading the settings file comes to. Settings that are read name an absolute project root, an
endpoint and headers with one value for a name; without a file at the path, that is reported. The
remaining problems are announced with four exceptions, which are problems of the file that nothing
in the program foresees: bytes that are no UTF-8, a number too long or values nested too deeply, a
project root that is no text, and patterns that are neither text nor list
(`load_announced_unless_unforeseen`).
-/

set_option autoImplicit false

namespace FieldAudit

open Json (Value)

namespace Workspace

/-- A path leads to a file exactly when the file can be read. -/
theorem isFile_eq_true_iff (w : Workspace) (path : Text) :
    w.isFile path = true ↔ ∃ bytes, w.read path = .ok bytes := by
  unfold isFile read
  cases w.find path with
  | error kind => simp
  | ok node =>
    cases node with
    | file bytes => simp
    | directory => simp

end Workspace

namespace Settings

/-! ## 1. Members of the file -/

theorem given_of_isGiven {value : Value} (h : value.isGiven = true) (default : Value) :
    given value default = value := by
  rw [given, if_pos h]

theorem given_of_not_isGiven {value : Value} (h : ¬ value.isGiven = true) (default : Value) :
    given value default = default := by
  rw [given, if_neg h]

/-- Of two values one is given if the second is. -/
theorem isGiven_given (value : Value) {default : Value} (h : default.isGiven = true) :
    (given value default).isGiven = true := by
  by_cases hvalue : value.isGiven = true
  · rw [given_of_isGiven hvalue]
    exact hvalue
  · rw [given_of_not_isGiven hvalue]
    exact h

theorem isGiven_endpointOf (environment : Environment) (members : Entries Value) :
    (endpointOf environment members).isGiven = true := by
  have hdefault : (Value.string defaultEndpoint).isGiven = true := by decide
  exact isGiven_given _ (isGiven_given _ hdefault)

/-- The headers are an object, if they are given. -/
def HeadersFit (members : Entries Value) : Prop :=
  (Value.member "graphqlHeaders" members).isGiven = true →
    ∃ headers, Value.member "graphqlHeaders" members = .object headers

/-- The project root is a text, if it is given. -/
def RootFits (members : Entries Value) : Prop :=
  (Value.member "projectRoot" members).isGiven = true →
    ∃ root, Value.member "projectRoot" members = .string root

/-- The patterns have items, if they are given: they are a list, a text or an object. -/
def PatternsFit (members : Entries Value) : Prop :=
  (Value.member "queryGlobs" members).isGiven = true →
    ∃ items, (Value.member "queryGlobs" members).itemsOf = .ok items

theorem headersOf_cases {members : Entries Value} (hdistinct : (Value.object members).Distinct) :
    (∃ headers, headersOf members = .ok headers ∧ (Entries.keys headers).Nodup ∧ HeadersFit members)
    ∨ (headersOf members = .error .badHeaders ∧ ¬ HeadersFit members) := by
  unfold headersOf
  by_cases hgiven : (Value.member "graphqlHeaders" members).isGiven = true
  · rw [given_of_isGiven hgiven]
    split
    · next headers hheaders =>
      refine .inl ⟨_, rfl, ?_, fun _ => ⟨headers, hheaders⟩⟩
      -- the headers are a member of the object that was read, and spelling their values keeps the
      -- names
      have hmember : (Text.ofString "graphqlHeaders", Value.object headers) ∈ members :=
        Value.mem_of_member_eq hheaders rfl
      have hkeys : (Entries.keys headers).Nodup :=
        hdistinct headers (.member hmember .self)
      rw [Entries.keys, List.map_map]
      exact hkeys
    · next hother =>
      refine .inr ⟨rfl, fun hfit => ?_⟩
      obtain ⟨headers, hheaders⟩ := hfit hgiven
      exact hother headers hheaders
  · rw [given_of_not_isGiven hgiven]
    exact .inl ⟨[], rfl, List.nodup_nil, fun h => absurd h hgiven⟩

theorem patternsOf_cases (members : Entries Value) :
    (∃ patterns, patternsOf members = .ok patterns ∧ PatternsFit members)
    ∨ (∃ mismatch, patternsOf members = .error mismatch ∧ ¬ PatternsFit members) := by
  unfold patternsOf
  by_cases hgiven : (Value.member "queryGlobs" members).isGiven = true
  · rw [given_of_isGiven hgiven]
    split
    · next pattern hpattern =>
      refine .inl ⟨_, rfl, fun _ => ?_⟩
      rw [hpattern]
      exact ⟨_, rfl⟩
    · cases hitems : (Value.member "queryGlobs" members).itemsOf with
      | ok items => exact .inl ⟨items, rfl, fun _ => ⟨items, hitems⟩⟩
      | error mismatch =>
        refine .inr ⟨mismatch, rfl, fun hfit => ?_⟩
        obtain ⟨items, hok⟩ := hfit hgiven
        exact absurd hitems (ne_error_of_eq_ok hok mismatch)
  · rw [given_of_not_isGiven hgiven]
    exact .inl ⟨[], rfl, fun h => absurd h hgiven⟩

/-! ## 2. Settings -/

/-- What a sweep can rely on: an absolute project root, an endpoint, and headers with one value for
a name. -/
structure Sound (settings : Settings) : Prop where
  root : Path.isAbsolute settings.projectRoot = true
  endpoint : settings.endpoint.isGiven = true
  headers : (Entries.keys settings.headers).Nodup

/-- However a project root is resolved, the path is absolute. -/
theorem isAbsolute_resolveRoot (w : Workspace) (directory root : Text) :
    Path.isAbsolute (resolveRoot w directory root) = true := by
  unfold resolveRoot
  by_cases hroot : Path.isAbsolute root = true
  · rw [hroot, Bool.not_true, if_neg Bool.false_ne_true]
    split
    · exact hroot
    · dsimp only
      split
      · exact w.isAbsolute_absolute _
      · split
        · exact w.isAbsolute_absolute _
        · exact hroot
  · rw [Bool.not_eq_true] at hroot
    rw [hroot, Bool.not_false, if_pos rfl]
    exact w.isAbsolute_absolute _

/-- The members of a file make sound settings if they fit. Otherwise the first that does not fit is
the problem: first the headers, then the project root, last the patterns. -/
theorem ofMembers_cases (w : Workspace) (environment : Environment) (path : Text)
    {members : Entries Value} (hdistinct : (Value.object members).Distinct) :
    (∃ settings, ofMembers w environment path members = .ok settings ∧ Sound settings
      ∧ HeadersFit members ∧ RootFits members ∧ PatternsFit members)
    ∨ (ofMembers w environment path members = .error .badHeaders ∧ ¬ HeadersFit members)
    ∨ (∃ value, ofMembers w environment path members = .error (.badRoot value)
      ∧ HeadersFit members ∧ ¬ RootFits members)
    ∨ (∃ mismatch, ofMembers w environment path members = .error (.badPatterns mismatch)
      ∧ HeadersFit members ∧ RootFits members ∧ ¬ PatternsFit members) := by
  have hendpoint := isGiven_endpointOf environment members
  unfold ofMembers
  rcases headersOf_cases hdistinct with ⟨headers, hheaders, hnodup, hfit⟩ | ⟨hheaders, hmisfit⟩
  · rw [hheaders]
    simp only [bind, Except.bind]
    split
    · next root hroot =>
      have hrootfits : RootFits members := by
        intro hgiven
        rw [given_of_isGiven hgiven] at hroot
        exact ⟨root, hroot⟩
      rcases patternsOf_cases members with
        ⟨patterns, hpatterns, hpfit⟩ | ⟨mismatch, hpatterns, hpmisfit⟩
      · rw [hpatterns]
        refine .inl ⟨_, rfl, ?_, hfit, hrootfits, hpfit⟩
        exact ⟨isAbsolute_resolveRoot w _ root, hendpoint, hnodup⟩
      · rw [hpatterns]
        exact .inr (.inr (.inr ⟨mismatch, rfl, hfit, hrootfits, hpmisfit⟩))
    · next hother =>
      refine .inr (.inr (.inl ⟨_, rfl, hfit, fun hrootfits => ?_⟩))
      -- the default is a text, so the value that is none was given
      by_cases hgiven : (Value.member "projectRoot" members).isGiven = true
      · obtain ⟨root, hroot⟩ := hrootfits hgiven
        exact hother root (by rw [given_of_isGiven hgiven, hroot])
      · exact hother _ (given_of_not_isGiven hgiven _)
  · rw [hheaders]
    exact .inr (.inl ⟨rfl, hmisfit⟩)

/-! ## 3. The file -/

/-- The bytes of a file write a JSON object with the given members. -/
def Holds (bytes : List UInt8) (members : Entries Value) : Prop :=
  ∃ text, Text.Utf8.decode bytes = .ok text
    ∧ Json.read (Text.unifyNewlines text) = .ok (.object members)

/-- The bytes of a file whose problem nothing in the program foresees. -/
inductive Unforeseen (bytes : List UInt8) : Prop
  /-- The bytes are no UTF-8. -/
  | malformed {malformed : Text.Utf8.Malformed} (h : Text.Utf8.decode bytes = .error malformed)
  /-- A number is too long, or lists and objects are nested too deeply. -/
  | oversized {text : Text} {error : Json.ReadError} (htext : Text.Utf8.decode bytes = .ok text)
      (hread : Json.read (Text.unifyNewlines text) = .error error)
      (hsize : error.problem.isSize = true)
  /-- The project root is no text. -/
  | root {members : Entries Value} (hholds : Holds bytes members) (hheaders : HeadersFit members)
      (hroot : ¬ RootFits members)
  /-- The patterns are neither text, list nor object. -/
  | patterns {members : Entries Value} (hholds : Holds bytes members)
      (hheaders : HeadersFit members) (hpatterns : ¬ PatternsFit members)

/-- A text holds the object that it reads as. -/
theorem holds_iff_of_decode {bytes : List UInt8} {text : Text}
    (htext : Text.Utf8.decode bytes = .ok text) (members : Entries Value) :
    Holds bytes members ↔ Json.read (Text.unifyNewlines text) = .ok (.object members) := by
  constructor
  · rintro ⟨other, hother, hobject⟩
    rw [htext] at hother
    rw [Except.ok.inj hother]
    exact hobject
  · exact fun hobject => ⟨text, htext, hobject⟩

theorem Holds.unique {bytes : List UInt8} {first second : Entries Value}
    (hfirst : Holds bytes first) (hsecond : Holds bytes second) : first = second := by
  obtain ⟨text, htext, hread⟩ := hfirst
  have hsame := (holds_iff_of_decode htext second).mp hsecond
  exact Value.object.inj (Except.ok.inj (hread.symm.trans hsame))

/-- A file that writes an object is foreseen exactly when its headers do not fit, or all its members
do. -/
theorem Holds.unforeseen_iff {bytes : List UInt8} {members : Entries Value}
    (h : Holds bytes members) :
    Unforeseen bytes ↔ HeadersFit members ∧ ¬ (RootFits members ∧ PatternsFit members) := by
  constructor
  · intro hunforeseen
    obtain ⟨text, htext, hread⟩ := h
    cases hunforeseen with
    | malformed hmalformed => exact absurd hmalformed (ne_error_of_eq_ok htext _)
    | oversized hother herror _ =>
      rw [htext] at hother
      obtain rfl := Except.ok.inj hother
      exact absurd herror (ne_error_of_eq_ok hread _)
    | root hholds hheaders hroot =>
      rw [Holds.unique ⟨text, htext, hread⟩ hholds]
      exact ⟨hheaders, fun hfit => hroot hfit.1⟩
    | patterns hholds hheaders hpatterns =>
      rw [Holds.unique ⟨text, htext, hread⟩ hholds]
      exact ⟨hheaders, fun hfit => hpatterns hfit.2⟩
  · rintro ⟨hheaders, hmisfit⟩
    by_cases hroot : RootFits members
    · exact .patterns h hheaders fun hpatterns => hmisfit ⟨hroot, hpatterns⟩
    · exact .root h hheaders hroot

/-- A file that writes no object is unforeseen exactly when it is too long or too deep to be
read. -/
theorem unforeseen_iff_of_not_holds {bytes : List UInt8} {text : Text}
    (htext : Text.Utf8.decode bytes = .ok text) (hnone : ∀ members, ¬ Holds bytes members) :
    Unforeseen bytes
      ↔ ∃ error, Json.read (Text.unifyNewlines text) = .error error
        ∧ error.problem.isSize = true := by
  constructor
  · intro hunforeseen
    cases hunforeseen with
    | malformed hmalformed => exact absurd hmalformed (ne_error_of_eq_ok htext _)
    | oversized hother herror hsize =>
      rw [htext] at hother
      obtain rfl := Except.ok.inj hother
      exact ⟨_, herror, hsize⟩
    | root hholds _ _ => exact absurd hholds (hnone _)
    | patterns hholds _ _ => exact absurd hholds (hnone _)
  · rintro ⟨error, herror, hsize⟩
    exact .oversized htext herror hsize

/-- A file that is no JSON is unforeseen exactly when it is too long or too deep to be read. -/
theorem unforeseen_iff_of_error {bytes : List UInt8} {text : Text} {error : Json.ReadError}
    (htext : Text.Utf8.decode bytes = .ok text)
    (hread : Json.read (Text.unifyNewlines text) = .error error) :
    Unforeseen bytes ↔ error.problem.isSize = true := by
  have hnone : ∀ members, ¬ Holds bytes members := by
    intro members hobject
    exact absurd hread (ne_error_of_eq_ok ((holds_iff_of_decode htext members).mp hobject) error)
  rw [unforeseen_iff_of_not_holds htext hnone]
  constructor
  · rintro ⟨other, hother, hsize⟩
    rw [hread] at hother
    rwa [Except.error.inj hother]
  · exact fun hsize => ⟨error, hread, hsize⟩

/-- A file that is JSON and no object is not unforeseen. -/
theorem not_unforeseen_of_not_object {bytes : List UInt8} {text : Text} {value : Value}
    (htext : Text.Utf8.decode bytes = .ok text)
    (hread : Json.read (Text.unifyNewlines text) = .ok value)
    (hother : ∀ members, value ≠ .object members) : ¬ Unforeseen bytes := by
  have hnone : ∀ members, ¬ Holds bytes members := by
    intro members hobject
    have hsame := (holds_iff_of_decode htext members).mp hobject
    exact hother members (Except.ok.inj (hread.symm.trans hsame))
  intro hunforeseen
  obtain ⟨error, herror, -⟩ := (unforeseen_iff_of_not_holds htext hnone).mp hunforeseen
  exact absurd herror (ne_error_of_eq_ok hread error)

section Load

variable {w : Workspace} (environment : Environment) {path? : Option Text}

theorem load_of_not_isFile (h : w.isFile (pathOf w path?) = false) :
    load w environment path? = .error (.missing (pathOf w path?)) := by
  unfold load
  dsimp only
  rw [h]
  rfl

/-- Without the file system: what becomes of the bytes of the file. -/
theorem load_of_read {bytes : List UInt8} (h : w.read (pathOf w path?) = .ok bytes) :
    load w environment path?
      = match Text.Utf8.decode bytes with
        | .error malformed => .error (.malformed malformed)
        | .ok text =>
          match Json.read (Text.unifyNewlines text) with
          | .error error => .error (unreadable (pathOf w path?) error)
          | .ok (.object members) => ofMembers w environment (pathOf w path?) members
          | .ok _ => .error (.notObject (pathOf w path?)) := by
  have hfile : w.isFile (pathOf w path?) = true := (w.isFile_eq_true_iff _).mpr ⟨bytes, h⟩
  unfold load
  dsimp only
  rw [hfile, h, Bool.not_true, if_neg Bool.false_ne_true]
  simp only [bind, Except.bind, Except.mapError]
  cases Text.Utf8.decode bytes with
  | error malformed => rfl
  | ok text =>
    dsimp only
    cases Json.read (Text.unifyNewlines text) with
    | error error => rfl
    | ok value => cases value <;> rfl

/-- Reading the file at the path gives sound settings, or a problem that is announced and is not
that there is no file, or a problem that is not announced; the last exactly if the file is
unforeseen. -/
theorem load_cases {bytes : List UInt8} (h : w.read (pathOf w path?) = .ok bytes) :
    (∃ settings, load w environment path? = .ok settings ∧ Sound settings ∧ ¬ Unforeseen bytes)
    ∨ (∃ problem, load w environment path? = .error problem ∧ problem.isAnnounced = true
      ∧ (∀ path, problem ≠ .missing path) ∧ ¬ Unforeseen bytes)
    ∨ (∃ problem, load w environment path? = .error problem ∧ problem.isAnnounced = false
      ∧ Unforeseen bytes) := by
  have hload := load_of_read environment h
  split at hload
  · next malformed hmalformed =>
    exact .inr (.inr ⟨_, hload, rfl, .malformed hmalformed⟩)
  · next text htext =>
    split at hload
    · next error hread =>
      have hiff := unforeseen_iff_of_error htext hread
      unfold unreadable at hload
      by_cases hsize : error.problem.isSize = true
      · rw [if_pos hsize] at hload
        exact .inr (.inr ⟨_, hload, rfl, hiff.mpr hsize⟩)
      · rw [if_neg hsize] at hload
        exact .inr (.inl ⟨_, hload, rfl, by simp, fun hunforeseen => hsize (hiff.mp hunforeseen)⟩)
    · next members hread =>
      have hobject : Holds bytes members := ⟨text, htext, hread⟩
      rw [hobject.unforeseen_iff]
      rcases ofMembers_cases w environment (pathOf w path?) (Json.distinct_of_read hread) with
        ⟨settings, hsettings, hsound, -, hroot, hpatterns⟩ | ⟨herror, hmisfit⟩
        | ⟨value, herror, hfit, hmisfit⟩ | ⟨mismatch, herror, hfit, -, hmisfit⟩
      · exact .inl ⟨settings, hload.trans hsettings, hsound, fun h => h.2 ⟨hroot, hpatterns⟩⟩
      · exact .inr (.inl ⟨_, hload.trans herror, rfl, by simp, fun h => hmisfit h.1⟩)
      · exact .inr (.inr ⟨_, hload.trans herror, rfl, hfit, fun h => hmisfit h.1⟩)
      · exact .inr (.inr ⟨_, hload.trans herror, rfl, hfit, fun h => hmisfit h.2⟩)
    · next value hother hread =>
      exact .inr (.inl ⟨_, hload, rfl, by simp, not_unforeseen_of_not_object htext hread hother⟩)

/-- A problem is not announced exactly if it is one of a file that is unforeseen. -/
theorem exists_unannounced_iff (w : Workspace) (environment : Environment) (path? : Option Text) :
    (∃ problem, load w environment path? = .error problem ∧ problem.isAnnounced = false)
      ↔ ∃ bytes, w.read (pathOf w path?) = .ok bytes ∧ Unforeseen bytes := by
  constructor
  · rintro ⟨problem, hproblem, hsilent⟩
    cases hfile : w.isFile (pathOf w path?) with
    | false =>
      rw [load_of_not_isFile environment hfile] at hproblem
      rw [← Except.error.inj hproblem] at hsilent
      simp [SettingsProblem.isAnnounced] at hsilent
    | true =>
      obtain ⟨bytes, hread⟩ := (w.isFile_eq_true_iff _).mp hfile
      refine ⟨bytes, hread, ?_⟩
      rcases load_cases environment hread with
        ⟨settings, hok, -⟩ | ⟨other, hother, hannounced, -⟩ | ⟨other, -, -, hunforeseen⟩
      · exact absurd hproblem (ne_error_of_eq_ok hok problem)
      · rw [hproblem] at hother
        rw [← Except.error.inj hother, hsilent] at hannounced
        simp at hannounced
      · exact hunforeseen
  · rintro ⟨bytes, hread, hunforeseen⟩
    rcases load_cases environment hread with
      ⟨_, -, -, hforeseen⟩ | ⟨_, -, -, -, hforeseen⟩ | ⟨problem, hproblem, hsilent, -⟩
    · exact absurd hunforeseen hforeseen
    · exact absurd hunforeseen hforeseen
    · exact ⟨problem, hproblem, hsilent⟩

end Load

/-! ## 4. Every outcome -/

/-- **The outcomes of reading the settings file.** Whatever the file, the environment and the other
files are: settings that are read are sound; the one problem that there is no file comes up exactly
if there is none at the path; and a problem that is not announced comes up exactly if the file is
unforeseen. In every other case there are settings or an announced problem. -/
theorem load_announced_unless_unforeseen (w : Workspace) (environment : Environment)
    (path? : Option Text) :
    (∀ settings, load w environment path? = .ok settings → Sound settings)
    ∧ (∀ path, load w environment path? = .error (.missing path)
      ↔ w.isFile (pathOf w path?) = false ∧ path = pathOf w path?)
    ∧ ((∃ problem, load w environment path? = .error problem ∧ problem.isAnnounced = false)
      ↔ ∃ bytes, w.read (pathOf w path?) = .ok bytes ∧ Unforeseen bytes) := by
  refine ⟨?_, ?_, exists_unannounced_iff w environment path?⟩
  · intro settings hsettings
    cases hfile : w.isFile (pathOf w path?) with
    | false =>
      rw [load_of_not_isFile environment hfile] at hsettings
      simp at hsettings
    | true =>
      obtain ⟨bytes, hread⟩ := (w.isFile_eq_true_iff _).mp hfile
      rcases load_cases environment hread with
        ⟨found, hok, hsound, -⟩ | ⟨_, herror, -⟩ | ⟨_, herror, -⟩
      · rw [hsettings] at hok
        rw [Except.ok.inj hok]
        exact hsound
      · rw [hsettings] at herror
        simp at herror
      · rw [hsettings] at herror
        simp at herror
  · intro path
    cases hfile : w.isFile (pathOf w path?) with
    | false =>
      rw [load_of_not_isFile environment hfile]
      simp [eq_comm]
    | true =>
      obtain ⟨bytes, hread⟩ := (w.isFile_eq_true_iff _).mp hfile
      refine ⟨fun hmissing => ?_, fun h => absurd h.1 (by simp)⟩
      -- a file that is there is never reported as missing
      rcases load_cases environment hread with
        ⟨_, hok, -⟩ | ⟨problem, herror, -, hnot, -⟩ | ⟨problem, herror, hsilent, -⟩
      · rw [hok] at hmissing
        simp at hmissing
      · rw [hmissing] at herror
        exact absurd (Except.error.inj herror).symm (hnot path)
      · rw [hmissing] at herror
        rw [← Except.error.inj herror] at hsilent
        simp [SettingsProblem.isAnnounced] at hsilent

/-! ## 5. Three files -/

/-- A workspace whose only file is the settings file. -/
def fileOf (bytes : List UInt8) : Workspace where
  tree := ⟨[(["schemasweep.config.json"], .file bytes)]⟩
  directory := []

/-- The bytes of an ASCII text. -/
def ascii (s : String) : List UInt8 := s.toList.map Char.toUInt8

/-- Settings with a header that comes twice, and whose value is a number. -/
def twiceHeader : List UInt8 :=
  ascii "\x7b\"projectRoot\": \"web\", \"graphqlHeaders\": \x7b\"a\": \"x\", \"a\": 2\x7d\x7d"

theorem load_announced_unless_unforeseen_twiceHeader :
    ∃ settings, load (fileOf twiceHeader) [] none = .ok settings ∧ Sound settings
      ∧ settings.projectRoot = "/web"
      ∧ settings.headers = [(Text.ofString "a", Text.ofString "2")] := by
  have hvalues : (load (fileOf twiceHeader) [] none).toOption.map
      (fun settings => (settings.projectRoot, settings.headers))
        = some (Text.ofString "/web", [(Text.ofString "a", Text.ofString "2")]) := by
    decide +kernel
  cases hload : load (fileOf twiceHeader) [] none with
  | error problem =>
    rw [hload] at hvalues
    simp [Except.toOption] at hvalues
  | ok settings =>
    rw [hload] at hvalues
    obtain ⟨hroot, hheaders⟩ := Prod.mk.inj (Option.some.inj hvalues)
    have hsound := (load_announced_unless_unforeseen (fileOf twiceHeader) [] none).1 settings hload
    exact ⟨settings, rfl, hsound, hroot, hheaders⟩

/-- Whether reading settings ends with a problem that is not announced. -/
def endsSilently (result : Except SettingsProblem Settings) : Bool :=
  match result with
  | .error problem => !problem.isAnnounced
  | .ok _ => false

theorem exists_of_endsSilently {result : Except SettingsProblem Settings}
    (h : endsSilently result = true) :
    ∃ problem, result = .error problem ∧ problem.isAnnounced = false := by
  cases result with
  | ok settings => exact absurd h Bool.false_ne_true
  | error problem => exact ⟨problem, rfl, by simpa [endsSilently] using h⟩

/-- Neither a file of one byte that starts no character is announced, nor one whose patterns are a
number, nor one whose project root is. -/
theorem load_unannounced :
    (∃ problem, load (fileOf [0xff]) [] none = .error problem ∧ problem.isAnnounced = false)
    ∧ (∃ problem, load (fileOf (ascii "\x7b\"queryGlobs\": 5\x7d")) [] none = .error problem
      ∧ problem.isAnnounced = false)
    ∧ ∃ problem, load (fileOf (ascii "\x7b\"projectRoot\": 5\x7d")) [] none = .error problem
      ∧ problem.isAnnounced = false := by
  refine ⟨?_, ?_, ?_⟩
  · exact exists_of_endsSilently (by decide +kernel)
  · exact exists_of_endsSilently (by decide +kernel)
  · exact exists_of_endsSilently (by decide +kernel)

end Settings

end FieldAudit
