import CommerceCollector.Catalogue.CompactionRuns
import CommerceCollector.Catalogue.Deduplication
import CommerceCollector.Catalogue.LoadOrder
import CommerceCollector.Catalogue.LocalHistoryRuns
import CommerceCollector.Catalogue.ParityVerdict
import CommerceCollector.Catalogue.PriceRanges
import CommerceCollector.Catalogue.PromotionRuns
import CommerceCollector.Catalogue.ReadModels
import CommerceCollector.Catalogue.ResponseReplay
import CommerceCollector.Catalogue.Scrolling
import CommerceCollector.Catalogue.SearchPages
import CommerceCollector.Catalogue.StagedLoad
import CommerceCollector.Connectors.BudgetReserves
import CommerceCollector.Connectors.Inventory
import CommerceCollector.Connectors.PriceMarks
import CommerceCollector.Connectors.ShopifyPages
import CommerceCollector.Connectors.SitemapRuns
import CommerceCollector.Control.Politeness
import CommerceCollector.Control.RunPages
import CommerceCollector.Delivery.HandingBack
import CommerceCollector.Delivery.Resume
import CommerceCollector.Lineage.Staging
import CommerceCollector.Models.SanitizedOnce
import CommerceCollector.Ops.BackupRuns
import CommerceCollector.Ops.HealthRuns
import CommerceCollector.Ops.JobLog
import CommerceCollector.Ops.NotificationList
import CommerceCollector.Ops.RetentionResume
import CommerceCollector.Ops.Schedules
import CommerceCollector.Proxy.Allocation
import CommerceCollector.Proxy.Burst
import CommerceCollector.Proxy.ExactlyOnce
import CommerceCollector.Proxy.FailClosed
import CommerceCollector.Proxy.FinalizingRuns
import CommerceCollector.Proxy.MutationRuns
import CommerceCollector.Proxy.Oversubscription
import CommerceCollector.Proxy.PasswordRuns
import CommerceCollector.Proxy.Retiring
import CommerceCollector.Proxy.SecretRecovery
import CommerceCollector.Proxy.StaticCaps
import CommerceCollector.Proxy.StaticRounds
import CommerceCollector.Proxy.Unwedged
import CommerceCollector.Stream.BootstrapMeets
import CommerceCollector.Stream.Serving
import CommerceCollector.Transports.FileCacheReads
import CommerceCollector.Transports.MiddlewareRuns
import CommerceCollector.Transports.RateLimitRuns
import CommerceCollector.Transports.RedirectSafety
import CommerceCollector.Transports.RobotsRuns
