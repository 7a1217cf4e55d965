import FieldAudit.Proofs.Sweep.Atomicity
import FieldAudit.Proofs.Sweep.Findings

/-!
What the report of a sweep that succeeded says about the use of fields. A field of an object type is
used exactly when a document selects it on that type (`run_used_iff_selected`). A selection on an
interface belongs to the interface, which the report does not list: it makes no field of the object
types used that implement the interface, though an object of such a type may well be what the
selection meets.
-/

set_option autoImplicit false

namespace FieldAudit

/-! ## 1. Possible types -/

namespace Introspection

open Json (Value)

/-- What is listed under a key. -/
def listedUnder (key : Text) (members : Entries Value) : List Value :=
  (Value.member key members).itemsOf.toOption.getD []

/-- The name of a described object type that lists an interface among its interfaces. -/
def implementing? (interface : Text) (entry : Value) : Option Text :=
  let members := entry.members?.getD []
  let implements := (listedUnder "interfaces" members).any fun reference =>
    (Value.member "name" (reference.members?.getD [])).text? = some interface
  if (Value.member "kind" members).word? = some "OBJECT" ∧ implements then
    (Value.member "name" members).text?
  else none

/-- The possible types of an interface: the object types of the data that implement it. -/
def possibleTypes (data : Value) (interface : Text) : List Text :=
  (listedUnder "types" ((description data).toOption.getD [])).filterMap (implementing? interface)

end Introspection

namespace Sweep

/-! ## 2. The report of a sweep -/

/-- The report of a sweep that succeeds can be read from its file. -/
theorem exists_report_of_run {settings : Settings} {base : Text} {verbose : Bool} {w : Workspace}
    {moment : Moment} {reply : Reply} {stored : StoredReport} (hbase : Path.isAbsolute base = true)
    (h : (run settings base verbose w moment reply).result = .ok stored) :
    ∃ findings bytes, (investigate settings verbose w moment reply).result = .ok findings
      ∧ Text.Utf8.encode findings.report.text = .ok bytes
      ∧ (run settings base verbose w moment reply).workspace.read stored.path = .ok bytes := by
  obtain ⟨findings, ⟨hfound, -, bytes, hencode, hread⟩, rfl⟩ := exists_stores_of_run hbase h
  exact ⟨findings, bytes, hfound, hencode, hread⟩

/-- **Used means selected on the very type.** Whatever the settings, the files and the reply are: if
a sweep succeeds, the stored report says of every field of an object type of the schema, those of
introspection aside, whether it is used, and it is used exactly if a document among the snippets of
the files that were found selects it in a selection set of that type. Interfaces are not in the
report. -/
theorem run_used_iff_selected (settings : Settings) (base? : Option Text) (verbose : Bool)
    (w : Workspace) (moment : Moment) (reply : Reply) (stored : StoredReport)
    (h : (run settings (Report.baseDirectory w base?) verbose w moment reply).result = .ok stored) :
    ∃ schema files findings bytes,
      (Exchange.fetch settings.endpoint settings.headers verbose reply).result = .ok schema
      ∧ (discover settings w).result = .ok files
      ∧ (investigate settings verbose w moment reply).result = .ok findings
      ∧ Text.Utf8.encode findings.report.text = .ok bytes
      ∧ (run settings (Report.baseDirectory w base?) verbose w moment reply).workspace.read
        stored.path = .ok bytes
      ∧ (∀ type declared, Entries.get? type schema.types = some (.object declared) →
        Schema.isReservedName type = false → ∀ field ∈ Entries.keys declared, ∃ entry usage,
          Entries.get? type findings.report.types = some entry
          ∧ Entries.get? field entry.usages = some usage
          ∧ (usage.used = true ↔ Scan.Selects schema w files ⟨type, field⟩))
      ∧ ∀ type declared, Entries.get? type schema.types = some (.interface declared) →
        Entries.get? type findings.report.types = none := by
  obtain ⟨findings, bytes, hfound, hencode, hread⟩ :=
    exists_report_of_run (Report.isAbsolute_baseDirectory w base?) h
  obtain ⟨schema, files, hschema, hfiles, hused, hinterfaces⟩ := investigate_used_iff hfound
  exact ⟨schema, files, findings, bytes, hschema, hfiles, hfound, hencode, hread, hused,
    hinterfaces⟩

/-! ## 3. A selection on an interface -/

open Json (Value)

/-- A project with one source file, in which a field of an interface is selected. -/
def nodeProject : Workspace where
  tree :=
    ⟨[(["a.ts"], .file ("\x60query A \x7b node \x7b id \x7d \x7d\x60".toList.map Char.toUInt8))]⟩
  directory := []

/-- Settings that find the source file. -/
def nodeSettings : Settings where
  projectRoot := "/"
  endpoint := .string "http://localhost"
  patterns := [.string "*.ts"]
  headers := []
  path? := none

/-- A reference to a type. -/
def referenceTo (kind name : Text) : Value :=
  .object [("kind", .string kind), ("name", .string name)]

/-- The description of a field without arguments. -/
def fieldOf (name : Text) (type : Value) : Value :=
  .object [("name", .string name), ("args", .array []), ("type", type)]

/-- The description of a type with fields and interfaces. -/
def typeOf (kind name : Text) (fields interfaces : List Value) : Value :=
  .object [("kind", .string kind), ("name", .string name), ("fields", .array fields),
    ("interfaces", .array interfaces)]

/-- The description of a schema in which users are nodes, and the query leads to a node. -/
def nodeTypes : List Value := [
  typeOf "OBJECT" "Query" [fieldOf "node" (referenceTo "INTERFACE" "Node")] [],
  typeOf "INTERFACE" "Node" [fieldOf "id" (referenceTo "SCALAR" "ID")] [],
  typeOf "OBJECT" "User" [fieldOf "id" (referenceTo "SCALAR" "ID")]
    [referenceTo "INTERFACE" "Node"],
  referenceTo "SCALAR" "ID"]

/-- The answer with that description. -/
def nodeAnswer : Reply :=
  let body := Json.render (.object [("data", .object [("__schema", .object [
    ("queryType", .object [("name", .string "Query")]), ("types", .array nodeTypes)])])])
  .answer 200 (some "OK") ((Text.Utf8.encode body).toOption.getD [])

/-- The schema of that answer. -/
def nodeSchema : Schema where
  types := [
    ("Query", .object [("node", .named "Node")]), ("Node", .interface [("id", .named "ID")]),
    ("User", .object [("id", .named "ID")]), ("ID", .scalar)]
  query? := some "Query"
  mutation? := none
  subscription? := none

/-- What the steps of a sweep over the project come to. -/
theorem nodeProject_values :
    (Exchange.fetch nodeSettings.endpoint nodeSettings.headers false nodeAnswer).result.toOption
      = some nodeSchema
    ∧ (Exchange.introspect nodeSettings.endpoint nodeSettings.headers false
      nodeAnswer).result.toOption.map (Introspection.possibleTypes · "Node")
      = some ([("User" : Text)])
    ∧ (discover nodeSettings nodeProject).result.toOption = some ([("/a.ts" : Text)])
    ∧ (Scan.usagesOfSource nodeSchema "/a.ts"
      (Scan.textOf (Scan.contentsOf nodeProject "/a.ts"))).map Prod.fst
      = [⟨"Query", "node"⟩, ⟨"Node", "id"⟩]
    ∧ (conclude (Report.baseDirectory nodeProject none) nodeProject
      (survey nodeSettings nodeSchema false nodeProject default).result).1.toOption.isSome
      = true := by
  decide +kernel

theorem fetch_nodeAnswer :
    (Exchange.fetch nodeSettings.endpoint nodeSettings.headers false nodeAnswer).result
      = .ok nodeSchema := by
  obtain ⟨hschema, -⟩ := nodeProject_values
  exact eq_ok_of_toOption_eq_some hschema

theorem discover_nodeProject : (discover nodeSettings nodeProject).result = .ok ["/a.ts"] := by
  obtain ⟨-, -, hfiles, -⟩ := nodeProject_values
  exact eq_ok_of_toOption_eq_some hfiles

theorem exists_run_nodeProject :
    ∃ stored, (run nodeSettings (Report.baseDirectory nodeProject none) false nodeProject default
      nodeAnswer).result = .ok stored := by
  obtain ⟨-, -, -, -, hsome⟩ := nodeProject_values
  obtain ⟨stored, hstored⟩ := Option.isSome_iff_exists.mp hsome
  rw [result_run, result_investigate fetch_nodeAnswer]
  exact ⟨stored, eq_ok_of_toOption_eq_some hstored⟩

/-- The one document selects the node on the query, and its field on the interface. -/
theorem selects_nodeProject_iff (coordinate : Coordinate) :
    Scan.Selects nodeSchema nodeProject ["/a.ts"] coordinate
      ↔ coordinate = ⟨"Query", "node"⟩ ∨ coordinate = ⟨"Node", "id"⟩ := by
  have hread : ∀ file ∈ ([("/a.ts" : Text)]), ∃ bytes, nodeProject.read file = .ok bytes := by
    intro file hfile
    rw [List.mem_singleton.mp hfile]
    exact ⟨"\x60query A \x7b node \x7b id \x7d \x7d\x60".toList.map Char.toUInt8, by decide +kernel⟩
  obtain ⟨-, -, -, hfields, -⟩ := nodeProject_values
  rw [Scan.selects_iff hread]
  simp only [exists_eq_left, hfields, List.mem_cons, List.not_mem_nil, or_false]

/-- A sweep that finds the field of the query used, and that of the users unused. -/
theorem run_used_iff_selected_nodeProject :
    ∃ stored findings,
      (run nodeSettings (Report.baseDirectory nodeProject none) false nodeProject default
        nodeAnswer).result = .ok stored
      ∧ (investigate nodeSettings false nodeProject default nodeAnswer).result = .ok findings
      ∧ ∃ entry usage, Entries.get? "Query" findings.report.types = some entry
        ∧ Entries.get? "node" entry.usages = some usage ∧ usage.used = true := by
  obtain ⟨stored, hstored⟩ := exists_run_nodeProject
  obtain ⟨schema, files, findings, -, hschema, hfiles, hfound, -, -, hused, -⟩ :=
    run_used_iff_selected nodeSettings none false nodeProject default nodeAnswer stored hstored
  rw [fetch_nodeAnswer] at hschema
  rw [discover_nodeProject] at hfiles
  obtain rfl := Except.ok.inj hschema
  obtain rfl := Except.ok.inj hfiles
  obtain ⟨entry, usage, hentry, husage, hiff⟩ :=
    hused "Query" [("node", .named "Node")] (by decide) (by decide) "node" (by decide)
  refine ⟨stored, findings, hstored, hfound, entry, usage, hentry, husage, ?_⟩
  exact hiff.mpr ((selects_nodeProject_iff _).mpr (.inl rfl))

/-- A sweep that succeeds and marks a field of an object type as unused, though a document selects
the field on an interface of which the type is a possible type. -/
theorem run_marks_unused_through_interface :
    ∃ data stored findings entry usage,
      (Exchange.introspect nodeSettings.endpoint nodeSettings.headers false nodeAnswer).result
        = .ok data
      ∧ Introspection.build data = .ok nodeSchema
      ∧ Text.ofString "User" ∈ Introspection.possibleTypes data "Node"
      ∧ Entries.get? "User" nodeSchema.types = some (.object [("id", .named "ID")])
      ∧ Entries.get? "Node" nodeSchema.types = some (.interface [("id", .named "ID")])
      ∧ (discover nodeSettings nodeProject).result = .ok ["/a.ts"]
      ∧ Scan.Selects nodeSchema nodeProject ["/a.ts"] ⟨"Node", "id"⟩
      ∧ (run nodeSettings (Report.baseDirectory nodeProject none) false nodeProject default
        nodeAnswer).result = .ok stored
      ∧ (investigate nodeSettings false nodeProject default nodeAnswer).result = .ok findings
      ∧ Entries.get? "User" findings.report.types = some entry
      ∧ Entries.get? "id" entry.usages = some usage ∧ usage.used = false := by
  obtain ⟨data, hdata, hbuild⟩ := Exchange.exists_build_eq_ok fetch_nodeAnswer
  obtain ⟨stored, hstored⟩ := exists_run_nodeProject
  obtain ⟨findings, -, hfound, -⟩ :=
    exists_report_of_run (Report.isAbsolute_baseDirectory nodeProject none) hstored
  obtain ⟨schema, files, hschema, hfiles, hused, -⟩ := investigate_used_iff hfound
  rw [fetch_nodeAnswer] at hschema
  rw [discover_nodeProject] at hfiles
  obtain rfl := Except.ok.inj hschema
  obtain rfl := Except.ok.inj hfiles
  obtain ⟨entry, usage, hentry, husage, hiff⟩ :=
    hused "User" [("id", .named "ID")] (by decide) (by decide) "id" (by decide)
  have hpossible : Text.ofString "User" ∈ Introspection.possibleTypes data "Node" := by
    obtain ⟨-, hnames, -⟩ := nodeProject_values
    rw [hdata] at hnames
    have hlist : Introspection.possibleTypes data "Node" = [("User" : Text)] :=
      Option.some.inj hnames
    rw [hlist]
    exact List.mem_singleton_self _
  refine ⟨data, stored, findings, entry, usage, hdata, hbuild, hpossible, by decide, by decide,
    discover_nodeProject, (selects_nodeProject_iff _).mpr (.inr rfl), hstored, hfound, hentry,
    husage, ?_⟩
  cases hflag : usage.used with
  | false => rfl
  | true =>
    -- the document selects nothing on the type of the users itself
    have hselects := (selects_nodeProject_iff _).mp (hiff.mp hflag)
    revert hselects
    decide

end Sweep

end FieldAudit
