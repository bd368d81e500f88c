import Mailman.Analysis.AccountOrigin
import Mailman.Analysis.ArchiveOneWay
import Mailman.Analysis.BatchDrained
import Mailman.Analysis.CancelExact
import Mailman.Analysis.CancelScope
import Mailman.Analysis.CanonicalAddress
import Mailman.Analysis.CleanAddress
import Mailman.Analysis.ConflictReview
import Mailman.Analysis.EventsOpened
import Mailman.Analysis.ImportAgain
import Mailman.Analysis.InboxDelivery
import Mailman.Analysis.InboxProgress
import Mailman.Analysis.KeyLifetime
import Mailman.Analysis.KeyServed
import Mailman.Analysis.LockRelease
import Mailman.Analysis.MigrationCrash
import Mailman.Analysis.NearConflicts
import Mailman.Analysis.OneLivePack
import Mailman.Analysis.OneRegistration
import Mailman.Analysis.OutboxOnce
import Mailman.Analysis.OutcomeOnce
import Mailman.Analysis.PackRecords
import Mailman.Analysis.PlanExact
import Mailman.Analysis.PostOnce
import Mailman.Analysis.PushRetries
import Mailman.Analysis.RefusalRule
import Mailman.Analysis.RelaunchClaims
import Mailman.Analysis.RelaunchSettles
import Mailman.Analysis.RenderOnce
import Mailman.Analysis.ResolvedPages
import Mailman.Analysis.SettingsRuns
import Mailman.Analysis.SoundSettings
import Mailman.Analysis.StageNumbers
import Mailman.Analysis.SuppressionOrder
import Mailman.Analysis.TagRuns
import Mailman.Analysis.TestGate
import Mailman.Analysis.TestMail
import Mailman.Analysis.TimeTexts
import Mailman.Analysis.TokenErrors
import Mailman.Analysis.UnsubAnswered
import Mailman.Analysis.UnsubDelivery
import Mailman.Analysis.UnsubLinks
import Mailman.Analysis.WebhookAuth
import Mailman.Analysis.WebhookOrder
import Mailman.Model.Scheduler
