import FieldAudit.Proofs.Json.Decoded
import FieldAudit.Proofs.Report.Join
import FieldAudit.Proofs.Report.Stored
import FieldAudit.Proofs.Text.Decoded
import Mathlib.Algebra.Order.BigOperators.Group.List
import Mathlib.Algebra.Order.Group.Nat

/-!
The file of a report decodes to the report. A report nests seven levels deep, and names no member
twice if its listing names no type twice (`fits_value`). So its text reads as its value, whatever
points its texts have; if they are characters, storing the report does not break off, and the bytes
of the file decode to the text (`build?_decodes`). Reports with the same value are the same
(`value_injective`), so different reports have different texts.
-/

set_option autoImplicit false

namespace FieldAudit.Report

open Json (Fits Value isWhole_ofString)
open Text.Utf8 (decode encode)

/-! ## 1. The value of a report -/

/-- The lines in a report. -/
def lines (report : Report) : List Int :=
  report.types.flatMap fun entry => entry.2.usages.flatMap fun usage => usage.2.sites.map Site.line

section Value

variable {kept : Text → Prop} (hword : ∀ s : String, kept s) {limit levels : Nat}
include hword

theorem fits_siteValue {site : Site} (hfile : kept site.file)
    (hline : (Text.ofNat site.line.natAbs).length ≤ limit) :
    Fits kept limit (levels + 1) (siteValue site) := by
  have hown : [Text.ofString "filePath", Text.ofString "line"].Nodup := by decide
  refine .object hown ?_ ?_
  · exact List.forall_mem_cons.mpr ⟨hword _, List.forall_mem_singleton.mpr (hword _)⟩
  · exact List.forall_mem_cons.mpr ⟨.string hfile, List.forall_mem_singleton.mpr (.int hline)⟩

theorem fits_usageValue {usage : FieldUsage} (hfiles : ∀ site ∈ usage.sites, kept site.file)
    (hlines : ∀ site ∈ usage.sites, (Text.ofNat site.line.natAbs).length ≤ limit) :
    Fits kept limit (levels + 3) (usageValue usage) := by
  have hown : [Text.ofString "used", Text.ofString "locations"].Nodup := by decide
  refine .object hown ?_ ?_
  · exact List.forall_mem_cons.mpr ⟨hword _, List.forall_mem_singleton.mpr (hword _)⟩
  · refine List.forall_mem_cons.mpr ⟨.bool _, List.forall_mem_singleton.mpr (.array ?_)⟩
    exact List.forall_mem_map.mpr fun site hsite =>
      fits_siteValue hword (hfiles site hsite) (hlines site hsite)

theorem fits_entryValue {entry : TypeEntry} (hkeys : (Entries.keys entry.usages).Nodup)
    (hfields : ∀ field ∈ entry.fields, kept field) (hnames : ∀ usage ∈ entry.usages, kept usage.1)
    (husages : ∀ usage ∈ entry.usages, Fits kept limit (levels + 3) (usageValue usage.2)) :
    Fits kept limit (levels + 5) (entryValue entry) := by
  have hown : [Text.ofString "fields", Text.ofString "fieldUsages"].Nodup := by decide
  refine .object hown ?_ ?_
  · exact List.forall_mem_cons.mpr ⟨hword _, List.forall_mem_singleton.mpr (hword _)⟩
  · refine List.forall_mem_cons.mpr ⟨.array ?_, List.forall_mem_singleton.mpr (.object ?_ ?_ ?_)⟩
    · exact List.forall_mem_map.mpr fun field hfield => .string (hfields field hfield)
    · exact (Entries.keys_mapValues usageValue entry.usages).symm ▸ hkeys
    · exact List.forall_mem_map.mpr hnames
    · exact List.forall_mem_map.mpr husages

theorem fits_value {report : Report} {endpoint : Text} (hvalue : report.endpoint = .string endpoint)
    (hendpoint : kept endpoint) (hkeys : (Entries.keys report.types).Nodup)
    (hnames : ∀ entry ∈ report.types, kept entry.1)
    (hentries : ∀ entry ∈ report.types, Fits kept limit (levels + 5) (entryValue entry.2)) :
    Fits kept limit (levels + 7) report.value := by
  have hown : [Text.ofString "generatedAt", Text.ofString "graphqlEndpoint",
      Text.ofString "types"].Nodup := by decide
  refine .object hown ?_ ?_
  · exact List.forall_mem_cons.mpr
      ⟨hword _, List.forall_mem_cons.mpr ⟨hword _, List.forall_mem_singleton.mpr (hword _)⟩⟩
  · refine List.forall_mem_cons.mpr
      ⟨.string (hword _), List.forall_mem_cons.mpr ⟨?_, List.forall_mem_singleton.mpr ?_⟩⟩
    · rw [hvalue]
      exact .string hendpoint
    · refine .object ?_ (List.forall_mem_map.mpr hnames) (List.forall_mem_map.mpr hentries)
      exact (Entries.keys_mapValues entryValue report.types).symm ▸ hkeys

end Value

theorem siteValue_injective : Function.Injective siteValue := by
  rintro ⟨file, line⟩ ⟨otherFile, otherLine⟩ h
  simp only [siteValue, Value.object.injEq, List.cons.injEq, Prod.mk.injEq, Value.string.injEq,
    Value.int.injEq, true_and, and_true] at h
  obtain ⟨rfl, rfl⟩ := h
  rfl

theorem usageValue_injective : Function.Injective usageValue := by
  rintro ⟨used, sites⟩ ⟨otherUsed, otherSites⟩ h
  simp only [usageValue, Value.object.injEq, List.cons.injEq, Prod.mk.injEq, Value.bool.injEq,
    Value.array.injEq, true_and, and_true] at h
  obtain ⟨rfl, hsites⟩ := h
  rw [siteValue_injective.list_map hsites]

theorem entryValue_injective : Function.Injective entryValue := by
  rintro ⟨fields, usages⟩ ⟨otherFields, otherUsages⟩ h
  simp only [entryValue, Value.object.injEq, List.cons.injEq, Prod.mk.injEq, Value.array.injEq,
    true_and, and_true] at h
  obtain ⟨hfields, husages⟩ := h
  have hstring : Function.Injective Value.string := fun _ _ => Value.string.inj
  rw [hstring.list_map hfields, Entries.mapValues_injective usageValue_injective husages]

/-- Reports with the same value are the same. -/
theorem value_injective : Function.Injective value := by
  rintro ⟨stamp, endpoint, types⟩ ⟨otherStamp, otherEndpoint, otherTypes⟩ h
  simp only [value, Value.object.injEq, List.cons.injEq, Prod.mk.injEq, Value.string.injEq,
    true_and, and_true] at h
  obtain ⟨hstamp, rfl, htypes⟩ := h
  have hword : some stamp = some otherStamp := by
    rw [← Text.word?_ofString, hstamp, Text.word?_ofString]
  rw [Option.some.inj hword, Entries.mapValues_injective entryValue_injective htypes]

/-! ## 2. Reports that are built -/

/-- What a report is built from: a listing that names no type twice, and texts without halves of
surrogate pairs. -/
structure WholeParts (endpoint : Text) (listing : Entries (List Text)) (usages : UsageMap) :
    Prop where
  keys : (Entries.keys listing).Nodup
  endpoint : endpoint.IsWhole
  types : ∀ entry ∈ listing, entry.1.IsWhole
  fields : ∀ entry ∈ listing, ∀ field ∈ entry.2, field.IsWhole
  files : ∀ type ∈ usages, ∀ field ∈ type.2, ∀ site ∈ field.2, site.file.IsWhole

theorem mem_of_mem_sites {usages : UsageMap} {type field : Text} {site : Site}
    (h : site ∈ usages.sites type field) :
    ∃ fields ∈ usages, ∃ sites ∈ fields.2, site ∈ sites.2 := by
  unfold UsageMap.sites at h
  split at h
  · next fields hfields =>
    cases hsites : Entries.get? field fields with
    | none =>
      rw [hsites] at h
      exact absurd h List.not_mem_nil
    | some sites =>
      rw [hsites] at h
      exact ⟨_, Entries.mem_of_get?_eq_some hfields, _, Entries.mem_of_get?_eq_some hsites, h⟩
  · exact absurd h List.not_mem_nil

section Build

variable {endpoint : Text} {listing : Entries (List Text)} {usages : UsageMap} {moment : Moment}
  {report : Report}

/-- What is said of a type of the report is said of the listing and the usages. -/
theorem exists_entryOf_of_build? {value : Value}
    (h : build? value listing usages moment = some report) {type : Text} {entry : TypeEntry}
    (hentry : (type, entry) ∈ report.types) :
    ∃ fields, (type, fields) ∈ listing ∧ entry = entryOf usages type fields := by
  rw [types_of_build?_eq_some h] at hentry
  exact (mem_typesOf_iff listing usages type entry).mp hentry

theorem mem_lines {entry : Text × TypeEntry} (hentry : entry ∈ report.types)
    {usage : Text × FieldUsage} (husage : usage ∈ entry.2.usages) {site : Site}
    (hsite : site ∈ usage.2.sites) : site.line ∈ report.lines :=
  List.mem_flatMap.mpr ⟨entry, hentry,
    List.mem_flatMap.mpr ⟨usage, husage, List.mem_map_of_mem hsite⟩⟩

/-- The sites of an entry are sites of the usages. -/
theorem WholeParts.isWhole_file (hwhole : WholeParts endpoint listing usages) {type : Text}
    {fields : List Text} {usage : Text × FieldUsage}
    (husage : usage ∈ (entryOf usages type fields).usages) {site : Site}
    (hsite : site ∈ usage.2.sites) : site.file.IsWhole := by
  rw [entryOf_usages] at husage
  obtain ⟨field, -, rfl⟩ := List.mem_map.mp husage
  obtain ⟨own, hown, sites, hsites, hfile⟩ := mem_of_mem_sites hsite
  exact hwhole.files own hown sites hsites site hfile

/-- A report that is built fits limits that its lines keep. -/
theorem fits_of_build? (h : build? (.string endpoint) listing usages moment = some report)
    (hwhole : WholeParts endpoint listing usages) {limit : Nat}
    (hlines : ∀ line ∈ report.lines, (Text.ofNat line.natAbs).length ≤ limit) (levels : Nat) :
    Fits Text.IsWhole limit (levels + 7) report.value := by
  have hendpoint : report.endpoint = .string endpoint := by
    obtain ⟨stamp, -, rfl⟩ := Option.map_eq_some_iff.mp h
    rfl
  refine fits_value isWhole_ofString hendpoint hwhole.endpoint ?_ ?_ ?_
  · rw [types_of_build?_eq_some h, keys_typesOf]
    exact hwhole.keys
  · rintro ⟨type, entry⟩ hmem
    obtain ⟨fields, hlisted, -⟩ := exists_entryOf_of_build? h hmem
    exact hwhole.types _ hlisted
  · rintro ⟨type, entry⟩ hmem
    obtain ⟨fields, hlisted, rfl⟩ := exists_entryOf_of_build? h hmem
    refine fits_entryValue isWhole_ofString ?_ ?_ ?_ ?_
    · exact Entries.nodup_keys_ofPairs _
    · exact hwhole.fields _ hlisted
    · intro usage husage
      rw [entryOf_usages] at husage
      obtain ⟨field, hfield, rfl⟩ := List.mem_map.mp husage
      exact hwhole.fields _ hlisted field (List.mem_eraseDups.mp hfield)
    · intro usage husage
      exact fits_usageValue isWhole_ofString (fun site hsite => hwhole.isWhole_file husage hsite)
        fun site hsite => hlines _ (mem_lines hmem husage hsite)

end Build

/-- **The report's file decodes to the report.** Let a report be built from an endpoint, a listing
without a type twice, and usages, whose texts are made of characters, whatever these are. Then
storing it comes to a file whose bytes are those of the report's text, and decode to it, unless the
file system refuses. The text reads as the value of the report: the same names in the same order,
the same texts, truth values, whole numbers and lists. So it is within all limits that let lists and
objects stand in each other as deep as those of reports, and whole numbers have as many digits as
the lines of the report, which may be any numbers. And a report that is built from anything else of
that kind, and has the same text, is the same report. -/
theorem build?_decodes {endpoint : Text} {listing : Entries (List Text)} {usages : UsageMap}
    {moment : Moment} {report : Report}
    (h : build? (.string endpoint) listing usages moment = some report)
    (hwhole : WholeParts endpoint listing usages) :
    (∀ w base, Path.isAbsolute base = true →
      (∃ made refusal, store w base report = ⟨made, .error (.refused refusal)⟩)
      ∨ ∃ changed bytes, store w base report = ⟨changed, .ok (fileIn base)⟩
        ∧ changed.read (fileIn base) = .ok bytes ∧ encode report.text = .ok bytes
        ∧ decode bytes = .ok report.text)
    ∧ (∀ limit levels, 7 ≤ levels →
      (∀ line ∈ report.lines, (Text.ofNat line.natAbs).length ≤ limit) →
      Json.readWithin limit levels report.text = .ok report.value)
    ∧ ∀ otherEndpoint otherListing otherUsages otherMoment other,
      build? (.string otherEndpoint) otherListing otherUsages otherMoment = some other →
      WholeParts otherEndpoint otherListing otherUsages → other.text = report.text →
        other = report := by
  -- the lines of a report have some number of digits
  have hsome : ∀ report : Report, ∃ limit, ∀ line ∈ report.lines,
      (Text.ofNat line.natAbs).length ≤ limit := by
    intro report
    refine ⟨(report.lines.map fun line => (Text.ofNat line.natAbs).length).sum,
      fun line hline => ?_⟩
    exact List.le_sum_of_mem (List.mem_map_of_mem hline)
  obtain ⟨limit, hlimit⟩ := hsome report
  have hfits := fits_of_build? h hwhole hlimit 0
  refine ⟨?_, ?_, ?_⟩
  · intro w base hbase
    obtain ⟨bytes, hbytes⟩ := Text.Utf8.exists_encode_of_chars (hfits.isWhole_spelled 0)
    have hencode : encode report.text = .ok bytes := hbytes
    rcases store_cases w report hbase with ⟨made, refusal, hstore, -⟩ | hstored | hbroken
    · exact .inl ⟨made, refusal, hstore⟩
    · obtain ⟨changed, own, hstore, hown, hread, -⟩ := hstored
      exact .inr ⟨changed, own, hstore, hread, hown, Text.Utf8.decode_of_encode hown⟩
    · obtain ⟨changed, unencodable, start, rest, own, -, ⟨_, _, -, -, hnone⟩, -⟩ := hbroken
      exact absurd hencode (hnone bytes)
  · intro limit levels hlevels hlines
    obtain ⟨more, rfl⟩ := Nat.exists_eq_add_of_le' hlevels
    exact Json.readWithin_render (fits_of_build? h hwhole hlines more)
  · intro otherEndpoint otherListing otherUsages otherMoment other hother hotherWhole htext
    obtain ⟨otherLimit, hotherLimit⟩ := hsome other
    have hotherFits := fits_of_build? hother hotherWhole hotherLimit 0
    exact value_injective (Json.render_injective hotherFits hfits htext)

/-- An endpoint with quotes, a backslash, controls, and characters of every length in bytes. -/
def quotedEndpoint : Text := "http://\"\\\n\x01é→😀\""

/-- A type and a field with quotes in their names. -/
def quotedListing : Entries (List Text) := [("\"T\"", ["\"f\"", "g"]), ("U", [])]

/-- One of the fields is used in a file with a tab in its name. -/
def quotedUsages : UsageMap := [("\"T\"", [("\"f\"", [⟨"/a\tb.ts", 12⟩])])]

/-- What the report comes to that is made from them, and storing it. -/
theorem quoted_values :
    let report? := build? (.string quotedEndpoint) quotedListing quotedUsages default
    report?.isSome = true
    ∧ report?.all (fun report => ∀ line ∈ report.lines,
      (Text.ofNat line.natAbs).length ≤ Json.digitLimit) = true
    ∧ report?.all (fun report => (store default "/" report).result.toOption.isSome) = true := by
  decide +kernel

/-- That report is what its text reads as, and its file decodes to the text. -/
theorem build?_decodes_quoted :
    ∃ report bytes, build? (.string quotedEndpoint) quotedListing quotedUsages default = some report
      ∧ (store default "/" report).workspace.read (fileIn "/") = .ok bytes
      ∧ decode bytes = .ok report.text
      ∧ Json.readWhole report.text = .ok report.value := by
  obtain ⟨hsome, hlines, hstores⟩ := quoted_values
  obtain ⟨report, hreport⟩ := Option.isSome_iff_exists.mp hsome
  rw [hreport] at hlines hstores
  have hwhole : WholeParts quotedEndpoint quotedListing quotedUsages :=
    ⟨by decide, by decide, by decide, by decide, by decide⟩
  obtain ⟨hstored, hread, -⟩ := build?_decodes hreport hwhole
  rcases hstored default "/" (by decide) with
    ⟨made, refusal, hstore⟩ | ⟨changed, bytes, hstore, hfile, -, hdecode⟩
  · -- the file system does not refuse
    rw [Option.all_some, hstore] at hstores
    simp [Except.toOption] at hstores
  · refine ⟨report, bytes, hreport, ?_, hdecode,
      hread Json.digitLimit Json.depthLimit (by decide) ?_⟩
    · rw [hstore]
      exact hfile
    · exact of_decide_eq_true hlines

end FieldAudit.Report
