import FieldAudit.Proofs.Introspection.Wrappers
import FieldAudit.Proofs.Sweep.Used

/-!
Sweeps and wrappers. Whether a field gives a thing, a list of things or a list of lists, and which
of them may be null, is nothing to a sweep. Data that are the same but for the wrappers in the types
of fields lead every scan to the same usages and counts, and every sweep to the same report
(`run_same_but_wrappers`): what a sweep asks of a schema is its listing and the named types of
fields, and these are the same.
-/

set_option autoImplicit false

namespace FieldAudit.Sweep

open Json (Value)
open Introspection (build bareData bareReference wrapping)

/-! ## 1. Sweeps -/

section

variable {settings : Settings} {verbose : Bool} {w : Workspace} {moment : Moment}
  {reply reply' : Reply} {schema schema' : Schema}

/-- What is found depends on the schema by its listing and by the scans against it. -/
theorem investigate_congr
    (h : (Exchange.fetch settings.endpoint settings.headers verbose reply).result = .ok schema)
    (h' : (Exchange.fetch settings.endpoint settings.headers verbose reply').result = .ok schema')
    (hscans : ∀ files, Scan.files schema verbose w files Scan.start
      = Scan.files schema' verbose w files Scan.start)
    (hlisting : schema.listing = schema'.listing) :
    (investigate settings verbose w moment reply).result
      = (investigate settings verbose w moment reply').result := by
  have hscan : scanUsages schema verbose w = scanUsages schema' verbose w := by
    funext files
    unfold scanUsages
    rw [hscans]
  have hreport : buildReport settings schema moment = buildReport settings schema' moment := by
    funext files scan
    unfold buildReport
    rw [hlisting]
  rw [result_investigate h, result_investigate h', survey, hscan, hreport]
  rfl

end

/-- **Wrappers change nothing.** Let schemas be built from two data that are the same but for the
wrappers, to any depth and in any order, in the types of the fields of objects and interfaces.
Whatever the files are, scans against the two schemas come to the same usages and counts, and join
to the same types of a report. Whatever the settings are, sweeps that are given the data come to the
same findings and to the same result, and leave the same files, reports included. -/
theorem run_same_but_wrappers {data data' : Value} {schema schema' : Schema}
    (h : build data = .ok schema) (h' : build data' = .ok schema')
    (hsame : bareData data = bareData data') :
    (∀ verbose w files scan,
      Scan.files schema verbose w files scan = Scan.files schema' verbose w files scan)
    ∧ (∀ usages, Report.typesOf schema.listing usages = Report.typesOf schema'.listing usages)
    ∧ ∀ settings base verbose w moment reply reply',
      (Exchange.introspect settings.endpoint settings.headers verbose reply).result = .ok data →
      (Exchange.introspect settings.endpoint settings.headers verbose reply').result = .ok data' →
      (investigate settings verbose w moment reply).result
        = (investigate settings verbose w moment reply').result
      ∧ (run settings base verbose w moment reply).result
        = (run settings base verbose w moment reply').result
      ∧ (run settings base verbose w moment reply).workspace
        = (run settings base verbose w moment reply').workspace := by
  have hbare : schema.bare = schema'.bare := Introspection.bare_eq_of_build h h' hsame
  have hscans : ∀ verbose w files scan,
      Scan.files schema verbose w files scan = Scan.files schema' verbose w files scan := by
    intro verbose w files scan
    rw [← Scan.files_bare schema, hbare, Scan.files_bare]
  have hlisting : schema.listing = schema'.listing := by
    rw [← schema.listing_bare, hbare, schema'.listing_bare]
  refine ⟨hscans, ?_, ?_⟩
  · intro usages
    rw [hlisting]
  · intro settings base verbose w moment reply reply' hdata hdata'
    have hfetch : (Exchange.fetch settings.endpoint settings.headers verbose reply).result
        = .ok schema := by
      rw [Exchange.result_fetch hdata, h]
      rfl
    have hfetch' : (Exchange.fetch settings.endpoint settings.headers verbose reply').result
        = .ok schema' := by
      rw [Exchange.result_fetch hdata', h']
      rfl
    have hfound : (investigate settings verbose w moment reply).result
        = (investigate settings verbose w moment reply').result :=
      investigate_congr hfetch hfetch' (fun files => hscans verbose w files Scan.start) hlisting
    refine ⟨hfound, ?_, ?_⟩
    · rw [result_run, result_run, hfound]
    · rw [workspace_run, workspace_run, hfound]

/-! ## 2. Two data -/

/-- Data in which the query leads to a node, and the nodes of a node are referred to in a given
way. -/
def nodesData (nodes : Value) : Value :=
  .object [("__schema", .object [
    ("queryType", referenceTo "OBJECT" "Query"),
    ("types", .array [
      typeOf "OBJECT" "Query" [fieldOf "node" (referenceTo "INTERFACE" "Node")] [],
      typeOf "INTERFACE" "Node" [fieldOf "nodes" nodes] []])])]

theorem bareData_nodesData (nodes : Value) :
    bareData (nodesData nodes) = nodesData (bareReference nodes) := rfl

/-- The schema of these data. -/
def nodesSchema (nodes : TypeRef) : Schema where
  types := [("Query", .object [("node", .named "Node")]), ("Node", .interface [("nodes", nodes)])]
  query? := some "Query"
  mutation? := none
  subscription? := none

/-- A node that leads to a node, and one that leads to lists of nodes, none of which are null, lead
to the same usages. -/
theorem run_same_but_wrappers_nodesData :
    let node := referenceTo "INTERFACE" "Node"
    let lists := wrapping "NON_NULL" (wrapping "LIST" (wrapping "LIST" (wrapping "NON_NULL" node)))
    build (nodesData node) = .ok (nodesSchema (.named "Node"))
    ∧ build (nodesData lists)
      = .ok (nodesSchema (.nonNull (.list (.list (.nonNull (.named "Node"))))))
    ∧ ∀ files, Scan.files (nodesSchema (.named "Node")) false nodeProject files Scan.start
      = Scan.files (nodesSchema (.nonNull (.list (.list (.nonNull (.named "Node")))))) false
        nodeProject files Scan.start := by
  intro node lists
  have hnode : build (nodesData node) = .ok (nodesSchema (.named "Node")) := by
    apply eq_ok_of_toOption_eq_some
    decide
  have hlists : build (nodesData lists)
      = .ok (nodesSchema (.nonNull (.list (.list (.nonNull (.named "Node")))))) := by
    apply eq_ok_of_toOption_eq_some
    decide
  have hsame : bareData (nodesData node) = bareData (nodesData lists) := by
    rw [bareData_nodesData, bareData_nodesData, Introspection.bareReference_wrapping (.inr rfl),
      Introspection.bareReference_wrapping (.inl rfl),
      Introspection.bareReference_wrapping (.inl rfl),
      Introspection.bareReference_wrapping (.inr rfl)]
  obtain ⟨hscans, -, -⟩ := run_same_but_wrappers hnode hlists hsame
  exact ⟨hnode, hlists, fun files => hscans false nodeProject files Scan.start⟩

end FieldAudit.Sweep
