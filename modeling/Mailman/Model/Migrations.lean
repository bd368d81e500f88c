import Mailman.Library.Sql

/-!
# The migrations of the terminal's database

The files of `terminal/migrations`, statement by statement, and `init`, which applies those that
`_migration` does not name. The process may stop between any two statements: `executescript`
leaves each statement committed, and the marker of a file is written after its last. A column
keeps its `NOT NULL`, its default and its `CHECK`; its type, the foreign keys and the indexes, of
which none is unique, decide nothing here.
-/

set_option autoImplicit false

namespace Mailman.Model.Migrations

open Mailman.Library.Sql

/-! ## Columns -/

def col (name : String) : Column := { name }

/-- `NOT NULL`; an `INTEGER PRIMARY KEY` is never NULL either. -/
def required (name : String) : Column := { name, notNull := true }

/-- `NOT NULL DEFAULT (datetime('now'))`. -/
def stamped (name : String) : Column := { name, notNull := true, default := .now }

/-- `NOT NULL DEFAULT v`. -/
def filled (name : String) (v : Value) : Column := { name, notNull := true, default := .value v }

/-- `NOT NULL DEFAULT v CHECK (name IN (...))`. -/
def checked (name : String) (v : Value) (values : List String) : Column :=
  { name, notNull := true, default := .value v, oneOf := some values }

/-! ## The files -/

/-- A migration: the file's name and its statements. -/
structure Migration where
  name : String
  script : List Stmt

/-- SOURCE: terminal/migrations/0001_init.sql -/
def schema : Migration where
  name := "0001_init.sql"
  script := [
    .foreignKeys true,
    .journalMode,
    .createTable true "contacts" {
      columns := [
        required "id", required "email", col "name", col "tags", required "consent_ts",
        required "consent_source", col "external_id", stamped "created_at", stamped "updated_at"]
      keys := [["id"], ["email"], ["external_id"]] },
    .createIndex "contacts" ["email"],
    .createIndex "contacts" ["external_id"],
    .createTable true "templates" {
      columns := [
        required "id", required "name", required "subject", required "from_name",
        required "html_body", col "text_body", required "template_hash",
        filled "tracking_enabled" (.int 1), stamped "created_at", stamped "updated_at"]
      keys := [["id"], ["name"]] },
    .createTable true "campaigns" {
      columns := [
        required "id", required "name", required "template_id",
        checked "kind" .null ["transactional", "promotional"],
        checked "status" (.text "draft") [
          "draft", "tested", "scheduled", "dispatched", "sending", "sent", "cancelled"],
        col "test_sent_at", col "template_hash_at_test", col "scheduled_for",
        col "dispatched_at", col "sent_at", filled "recipient_count" (.int 0),
        stamped "created_at", stamped "updated_at"]
      keys := [["id"]] },
    .createIndex "campaigns" ["status"],
    .createTable true "campaign_recipients" {
      columns := [
        required "id", required "campaign_id", required "contact_id", col "message_id",
        checked "status" (.text "queued") [
          "queued", "sent", "delivered", "opened", "clicked", "bounced", "complained", "failed",
          "cancelled"],
        col "sent_at", col "delivered_at", col "opened_at", col "clicked_at", col "bounced_at",
        col "complained_at", col "failure_reason"]
      keys := [["id"], ["campaign_id", "contact_id"]] },
    .createIndex "campaign_recipients" ["message_id"],
    .createIndex "campaign_recipients" ["campaign_id"],
    .createTable true "events" {
      columns := [
        required "id", required "event_type", col "message_id", col "recipient",
        required "payload_json", stamped "received_at", col "synced_from_edge_at"]
      keys := [["id"]] },
    .createIndex "events" ["message_id"],
    .createIndex "events" ["event_type"],
    .createTable true "suppression_hashes" {
      columns := [
        col "email_hash",
        checked "reason" .null [
          "unsubscribe", "complaint", "bounce_hard", "manual", "erasure_request"],
        stamped "added_at", col "source"]
      keys := [["email_hash"]] },
    .createTable true "dispatched_job" {
      columns := [
        col "job_id", required "campaign_id", required "recipient_id",
        required "recipient_hash",
        checked "status" (.text "dispatched") [
          "dispatched", "acked", "completed", "failed", "cancelled"],
        stamped "dispatched_at", col "acked_at", col "completed_at", required "content_hash"]
      keys := [["job_id"]] },
    .createIndex "dispatched_job" ["campaign_id"],
    .createIndex "dispatched_job" ["status"],
    .createTable true "drift_report" {
      columns := [
        required "id", stamped "detected_at",
        checked "category" .null [
          "missing_on_edge", "missing_on_vault", "status_mismatch", "content_mismatch"],
        checked "severity" .null ["INFO", "WARN", "CRITICAL"], col "job_id",
        required "details_json", col "acknowledged_at", col "acknowledged_by"]
      keys := [["id"]] },
    .createIndex "drift_report" ["severity", "acknowledged_at"],
    .createTable true "audit_event" {
      columns := [
        required "id", stamped "occurred_at", required "actor", required "action", col "target",
        col "details_json"]
      keys := [["id"]] },
    .createIndex "audit_event" ["occurred_at"],
    .createIndex "audit_event" ["action"]]

/-- SOURCE: terminal/migrations/0002_sync.sql -/
def sync : Migration where
  name := "0002_sync.sql"
  script := [
    .createTable true "inbox" {
      columns := [
        required "event_id", required "table_name", required "row_id", required "revision",
        required "actor", required "modified_at", required "key_id", col "encrypted_payload",
        filled "deleted" (.int 0), stamped "received_at", col "materialised_at"]
      keys := [["event_id"]] },
    .createIndex "inbox" ["table_name", "row_id", "revision"],
    .createIndex "inbox" ["materialised_at"],
    .createTable true "outbox" {
      columns := [
        required "outbox_id", required "table_name", required "row_id", required "revision",
        required "actor", required "modified_at", required "key_id", col "encrypted_payload",
        filled "deleted" (.int 0), stamped "created_at", col "pushed_at",
        col "assigned_event_id"]
      keys := [["outbox_id"]] },
    .createIndex "outbox" ["pushed_at", "outbox_id"],
    .createTable true "sync_state" {
      columns := [
        col "key", required "value", stamped "updated_at"]
      keys := [["key"]] }]

/-- SOURCE: terminal/migrations/0003_settings.sql -/
def settings : Migration where
  name := "0003_settings.sql"
  script := [
    .createTable true "settings" {
      columns := [
        col "key", required "value", filled "is_secret" (.int 0), stamped "updated_at",
        filled "updated_by" (.text "system")]
      keys := [["key"]] }]

/-- SOURCE: terminal/migrations/0004_metrics_snapshots.sql -/
def metricsSnapshots : Migration where
  name := "0004_metrics_snapshots.sql"
  script := [
    .createTable true "metrics_snapshots" {
      columns := [
        required "id", stamped "ts", filled "contacts" (.int 0), filled "campaigns" (.int 0),
        filled "dispatched" (.int 0), filled "suppression" (.int 0)]
      keys := [["id"]] },
    .createIndex "metrics_snapshots" ["ts"]]

/-- SOURCE: terminal/migrations/0005_companies.sql -/
def companies : Migration where
  name := "0005_companies.sql"
  script := [
    .createTable true "companies" {
      columns := [
        required "id", required "name", required "domain", filled "from_name" (.text ""),
        filled "from_email" (.text ""), col "resend_key_enc", stamped "created_at",
        stamped "updated_at"]
      keys := [["id"], ["name"]] },
    .addColumn "campaigns" (col "company_id")]

/-- SOURCE: terminal/migrations/0006_dispatched_job_outcome.sql -/
def dispatchedJobOutcome : Migration where
  name := "0006_dispatched_job_outcome.sql"
  script := [
    .addColumn "dispatched_job" (col "resend_message_id")]

/-- SOURCE: terminal/migrations/0007_inbox_materialised_idx.sql -/
def inboxMaterialisedIdx : Migration where
  name := "0007_inbox_materialised_idx.sql"
  script := [
    .createIndex "inbox" ["table_name", "materialised_at"]]

/-- SOURCE: terminal/migrations/0008_operators.sql -/
def operators : Migration where
  name := "0008_operators.sql"
  script := [
    .createTable true "operators" {
      columns := [
        required "id", required "email", required "password_hash",
        checked "role" (.text "operator") ["admin", "operator"], stamped "created_at",
        col "last_login_at", filled "active" (.int 1)]
      keys := [["id"], ["email"]] }]

/-- SOURCE: terminal/migrations/0009_campaign_rate.sql -/
def campaignRate : Migration where
  name := "0009_campaign_rate.sql"
  script := [
    .addColumn "campaigns" (col "rate_limit_per_min"),
    .addColumn "campaigns" { name := "bounce_pause_pct", default := .value (.real "0.10") }]

/-- SOURCE: terminal/migrations/0010_campaign_human_send.sql -/
def campaignHumanSend : Migration where
  name := "0010_campaign_human_send.sql"
  script := [
    .addColumn "campaigns" (filled "human_send" (.int 0)),
    .addColumn "campaigns" (filled "human_send_min_s" (.int 60)),
    .addColumn "campaigns" (filled "human_send_max_s" (.int 210))]

/-- SOURCE: terminal/migrations/0011_campaign_human_send_count.sql -/
def campaignHumanSendCount : Migration where
  name := "0011_campaign_human_send_count.sql"
  script := [
    .addColumn "campaigns" (filled "human_send_count" (.int 1))]

/-- SOURCE: terminal/migrations/0012_companies_to_entities.sql -/
def companiesToEntities : Migration where
  name := "0012_companies_to_entities.sql"
  script := [
    .renameTable "companies" "entities",
    .renameColumn "campaigns" "company_id" "entity_id",
    .addColumn "entities" (col "footer_address"),
    .addColumn "entities" (col "support_email"),
    .addColumn "entities" (col "public_host")]

/-- SOURCE: terminal/migrations/0013_campaign_stages.sql -/
def campaignStages : Migration where
  name := "0013_campaign_stages.sql"
  script := [
    .createTable true "campaign_stages" {
      columns := [
        required "id", required "campaign_id", filled "stage_number" (.int 1),
        required "template_id", required "scheduled_for", filled "status" (.text "pending"),
        col "dispatched_at", col "note", stamped "created_at"]
      keys := [["id"], ["campaign_id", "stage_number"]] },
    .createIndex "campaign_stages" ["status", "scheduled_for"]]

/-- SOURCE: terminal/migrations/0014_campaign_status_paused.sql -/
def campaignStatusPaused : Migration where
  name := "0014_campaign_status_paused.sql"
  script := [
    .foreignKeys false,
    .dropTable true "campaigns_new",
    .createTable false "campaigns_new" {
      columns := [
        required "id", required "name", required "template_id",
        checked "kind" .null ["transactional", "promotional"], col "entity_id",
        checked "status" (.text "draft") [
          "draft", "tested", "scheduled", "dispatched", "sending", "sent", "cancelled",
          "paused", "failed"],
        col "test_sent_at", col "template_hash_at_test", col "scheduled_for",
        col "dispatched_at", col "sent_at", filled "recipient_count" (.int 0),
        stamped "created_at", stamped "updated_at", col "rate_limit_per_min",
        { name := "bounce_pause_pct", default := .value (.real "0.10") },
        filled "human_send" (.int 0), filled "human_send_min_s" (.int 60),
        filled "human_send_max_s" (.int 210), filled "human_send_count" (.int 1)]
      keys := [["id"]] },
    .copyRows "campaigns_new" [
      "id", "name", "template_id", "kind", "entity_id", "status", "test_sent_at",
      "template_hash_at_test", "scheduled_for", "dispatched_at", "sent_at", "recipient_count",
      "created_at", "updated_at", "rate_limit_per_min", "bounce_pause_pct", "human_send",
      "human_send_min_s", "human_send_max_s", "human_send_count"] "campaigns",
    .dropTable false "campaigns",
    .renameTable "campaigns_new" "campaigns",
    .createIndex "campaigns" ["status"],
    .foreignKeys true]

/-- SOURCE: terminal/migrations/0015_campaigns_archived.sql -/
def campaignsArchived : Migration where
  name := "0015_campaigns_archived.sql"
  script := [
    .foreignKeys false,
    .dropTable true "campaigns_new",
    .createTable false "campaigns_new" {
      columns := [
        required "id", required "name", required "template_id",
        checked "kind" .null ["transactional", "promotional"], col "entity_id",
        checked "status" (.text "draft") [
          "draft", "tested", "scheduled", "dispatched", "sending", "sent", "cancelled",
          "paused", "failed", "archived"],
        col "test_sent_at", col "template_hash_at_test", col "scheduled_for",
        col "dispatched_at", col "sent_at", filled "recipient_count" (.int 0),
        stamped "created_at", stamped "updated_at", col "rate_limit_per_min",
        { name := "bounce_pause_pct", default := .value (.real "0.10") },
        filled "human_send" (.int 0), filled "human_send_min_s" (.int 60),
        filled "human_send_max_s" (.int 210), filled "human_send_count" (.int 1)]
      keys := [["id"]] },
    .copyRows "campaigns_new" [
      "id", "name", "template_id", "kind", "entity_id", "status", "test_sent_at",
      "template_hash_at_test", "scheduled_for", "dispatched_at", "sent_at", "recipient_count",
      "created_at", "updated_at", "rate_limit_per_min", "bounce_pause_pct", "human_send",
      "human_send_min_s", "human_send_max_s", "human_send_count"] "campaigns",
    .dropTable false "campaigns",
    .renameTable "campaigns_new" "campaigns",
    .createIndex "campaigns" ["status"],
    .foreignKeys true]

/-- SOURCE: terminal/migrations/0016_suppression_scope.sql -/
def suppressionScope : Migration where
  name := "0016_suppression_scope.sql"
  script := [
    .addColumn "suppression_hashes" (filled "scope" (.text "all")),
    .insertOrIgnore "sync_state" [("key", .text "last_pulled_unsub_at"), ("value", .text "")]]

/-- SOURCE: terminal/migrations/0017_campaign_lock.sql -/
def campaignLock : Migration where
  name := "0017_campaign_lock.sql"
  script := [
    .addColumn "campaigns" (col "lock_until"),
    .addColumn "campaigns" (col "unsubs_confirmed_at"),
    .addColumn "campaigns" (filled "lock_duration_s" (.int 86400)),
    .insertOrIgnore "sync_state" [("key", .text "last_pull_ok_at"), ("value", .text "")]]

/-- SOURCE: terminal/migrations/0018_batches_and_seeds.sql -/
def batchesAndSeeds : Migration where
  name := "0018_batches_and_seeds.sql"
  script := [
    .createTable true "campaign_batches" {
      columns := [
        required "id", required "campaign_id", required "batch_no", filled "size" (.int 0),
        checked "status" (.text "pending") [
          "pending", "scheduled", "sending", "drained", "cooldown", "approved", "done",
          "cancelled"],
        col "window_start", col "window_end", col "loaded_at", col "drained_at",
        col "approve_unlock_at", col "approved_at", filled "sent" (.int 0),
        filled "delivered" (.int 0), filled "opened" (.int 0), filled "clicked" (.int 0),
        filled "bounced" (.int 0), filled "complained" (.int 0), filled "unsub" (.int 0),
        stamped "created_at"]
      keys := [["id"], ["campaign_id", "batch_no"]] },
    .createIndex "campaign_batches" ["campaign_id"],
    .addColumn "campaign_recipients" (col "batch_no"),
    .createTable true "seed_addresses" {
      columns := [
        required "id", required "email", col "provider", filled "active" (.int 1),
        stamped "created_at"]
      keys := [["id"], ["email"]] },
    .createTable true "seed_placements" {
      columns := [
        required "id", required "batch_id", required "seed_email",
        { name := "placement"
          oneOf := some ["inbox", "spam", "promotions", "missing", "unknown"] },
        col "checked_at", col "note"]
      keys := [["id"]] },
    .addColumn "campaign_recipients" (filled "is_seed" (.int 0)),
    .insertOrIgnore "settings" [("key", .text "send_window_start_hour"), ("value", .text "9")],
    .insertOrIgnore "settings" [("key", .text "send_window_hours"), ("value", .text "4")],
    .insertOrIgnore "settings"
      [("key", .text "send_window_tz"), ("value", .text "America/Los_Angeles")],
    .insertOrIgnore "settings" [("key", .text "send_sender_count"), ("value", .text "3")],
    .insertOrIgnore "settings" [("key", .text "send_rush_tail_minutes"), ("value", .text "30")],
    .insertOrIgnore "settings" [("key", .text "send_batch_size"), ("value", .text "1000")],
    .insertOrIgnore "settings" [("key", .text "send_jitter_min_s"), ("value", .text "60")],
    .insertOrIgnore "settings" [("key", .text "send_jitter_max_s"), ("value", .text "210")],
    .insertOrIgnore "settings" [("key", .text "send_rush_jitter_s"), ("value", .text "15")]]

/-- SOURCE: terminal/migrations/0019_send_generation.sql -/
def sendGeneration : Migration where
  name := "0019_send_generation.sql"
  script := [
    .addColumn "campaigns" (filled "relaunch_gen" (.int 0)),
    .addColumn "campaigns" (filled "relaunch_open" (.int 0)),
    .addColumn "campaigns" (filled "relaunch_seq" (.int 0)),
    .addColumn "campaign_batches" (col "dispatch_started_at")]

/-- `sorted(MIGRATIONS_DIR.glob("*.sql"))`. -/
def migrations : List Migration :=
  [schema, sync, settings, metricsSnapshots, companies, dispatchedJobOutcome, inboxMaterialisedIdx,
    operators, campaignRate, campaignHumanSend, campaignHumanSendCount, companiesToEntities,
    campaignStages, campaignStatusPaused, campaignsArchived, suppressionScope, campaignLock,
    batchesAndSeeds, sendGeneration]

/-! ## Applying them -/

/-- The database file: its tables, and the names in `_migration`. -/
structure Vault where
  db : Database
  applied : List String

/-- The file before the first `init`. -/
def Vault.empty : Vault where
  db := { tables := [], rows := fun _ => [], foreignKeys := true }
  applied := []

/-- One thing `_apply_migrations` commits: a statement of a file, or the file's marker. -/
inductive Step where
  | sql (s : Stmt)
  | mark (name : String)

/-- The steps of a file. -/
def Migration.steps (m : Migration) : List Step := m.script.map .sql ++ [.mark m.name]

/-- What `_apply_migrations` has to do. SOURCE: terminal/db.py:67-78 -/
def pendingSteps (applied : List String) : List Step :=
  (migrations.filter fun m => !applied.contains m.name).flatMap Migration.steps

def Step.exec (now : String) (v : Vault) : Step → Option Vault
  | .sql s => (s.exec now v.db).map fun db => { v with db }
  | .mark name => some { v with applied := v.applied ++ [name] }

/-- Step after step, each at its own time, up to one that raises. -/
def runSteps (now : ℕ → String) : List Step → Vault → Option Vault
  | [], v => some v
  | s :: steps, v => (s.exec (now 0) v).bind (runSteps (fun n => now (n + 1)) steps)

/-- A new connection enforces foreign keys. SOURCE: terminal/db.py:33-42, 84-86 -/
def Vault.connect (v : Vault) : Vault := { v with db := { v.db with foreignKeys := true } }

/-- `init`, or `none` where it raises. SOURCE: terminal/db.py:67-87 -/
def init (now : ℕ → String) (v : Vault) : Option Vault :=
  runSteps now (pendingSteps v.applied) v.connect

/-- What a run of `init` leaves that stops after `n` steps. -/
def interruptedInit (now : ℕ → String) (n : ℕ) (v : Vault) : Option Vault :=
  runSteps now ((pendingSteps v.applied).take n) v.connect

end Mailman.Model.Migrations
