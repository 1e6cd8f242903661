import LegacyVault.Database

/-!
# Report requests

A requested report and its workflow are inserted together. The workflow key
of a report is derived from the idempotency key of its request.

Enqueueing the workflow after the transaction is not modelled.
-/

namespace LegacyVault

open JsonText RowTransaction RowTransaction.Program

/-- What is generated for a report. -/
structure ReportGenerated where
  reportId : Identifier
  workflowId : Identifier
  requestedAt : Instant
  deriving DecidableEq

/-- The report that `startReport` inserts. -/
def startedReport (context : TenantContext) (kind : ReportKind) (generated : ReportGenerated) :
    ReportRow where
  id := generated.reportId
  organizationId := context.organizationId
  householdId := context.householdId
  workflowId := some generated.workflowId
  kind := kind
  status := .pending
  generatedAt := generated.requestedAt
  payloadEncrypted := none
  encryptionKeyVersion := none
  requestedBy := some context.actorId
  version := 1

/-- The workflow that `startReport` inserts. -/
def reportWorkflow (context : TenantContext) (key : String) (kind : ReportKind)
    (generated : ReportGenerated) : WorkflowRow where
  id := generated.workflowId
  organizationId := context.organizationId
  householdId := context.householdId
  kind := if kind = .annualReview then "annual-review" else "report"
  idempotencyKey := "report:" ++ key
  status := .pending
  completedSteps := []
  nextStep := some "collect"
  lastErrorClass := none
  subjectType := some "Report"
  subjectId := some generated.reportId
  version := 1

/-- `startReport`. -/
def startReport (context : TenantContext) (key : String) (kind : ReportKind)
    (generated : ReportGenerated) : Transaction (ReportRow × WorkflowRow) := do
  let report : ReportRow ← insertRow (S := vaultSchema) .reports generated.reportId
    (startedReport context kind generated) (.uniqueViolation "reports_pkey")
  let workflow := reportWorkflow context key kind generated
  requireUnique "workflow_runs_organization_id_household_id_idempotency_key_key" (fun σ =>
    (σ.rowsOf .workflowRuns).any (fun other : WorkflowRow =>
      context.sees other && other.idempotencyKey == workflow.idempotencyKey))
  let workflow : WorkflowRow ← insertRow (S := vaultSchema) .workflowRuns generated.workflowId
    workflow (.uniqueViolation "workflow_runs_pkey")
  pure (report, workflow)

/-- Starting a report writes reports and workflows only. -/
theorem startReport_leaves {t : VaultTable} (hreports : t ≠ .reports)
    (hworkflows : t ≠ .workflowRuns) (context : TenantContext) (key : String) (kind : ReportKind)
    (generated : ReportGenerated) : (startReport context key kind generated).Leaves t :=
  writes_bind (writes_insertRow hreports) (fun _ =>
    writes_bind (writes_requireUnique _ _) (fun _ =>
      writes_bind (writes_insertRow hworkflows) (fun _ => writes_commit _)))

/-- The response to a report request. -/
def startedReportJson (started : ReportRow × WorkflowRow) : Json :=
  .obj [("report", .obj [("id", .str started.1.id), ("kind", .str started.1.kind.text),
      ("status", .str started.1.status.text), ("version", .nat started.1.version)]),
    ("workflow", .obj [("id", .str started.2.id), ("status", .str started.2.status.text),
      ("version", .nat started.2.version)])]

end LegacyVault
