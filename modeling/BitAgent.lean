import BitAgent.Attribution.Recon
import BitAgent.Cataloguerecovery.Privacy
import BitAgent.Cataloguerecovery.Roundtrip
import BitAgent.Classifier.FuzzyMatch
import BitAgent.Classifier.Workflows
import BitAgent.Concurrency.BatchingChannel
import BitAgent.Csamblocklist.Feed
import BitAgent.Database.Grouped
import BitAgent.Database.Race
import BitAgent.Dht.Admission
import BitAgent.Dht.ReverseMap
import BitAgent.Dht.Server
import BitAgent.Dhtcrawler.BanCheck
import BitAgent.Evidence.CanonicalLabel
import BitAgent.Evidence.OutcomeLedger
import BitAgent.Evidence.Promotion
import BitAgent.Fts.Phrase
import BitAgent.Importer.Active
import BitAgent.Importer.Deadlock
import BitAgent.Importer.Gate
import BitAgent.Importer.Routing
import BitAgent.Metainfo.Handshake
import BitAgent.Metainfo.Pieces
import BitAgent.Model.Date
import BitAgent.Namepolicy.AllowsSql
import BitAgent.Processor.Batch
import BitAgent.Processor.Persist
import BitAgent.Processor.Retention
import BitAgent.ProcessorApi.Unambiguous
import BitAgent.Processors.AttemptWindow
import BitAgent.Processors.ContextAgreement
import BitAgent.Processors.FeedbackCursor
import BitAgent.Processors.Reprocessing
import BitAgent.Processors.Workers
import BitAgent.Protocol.SecureID
import BitAgent.Queue.Exec
import BitAgent.Queue.Retries
import BitAgent.Seeds.Batch
import BitAgent.Seeds.Stale
import BitAgent.Torznab.SearchOptions
import BitAgent.Verdicts.Concurrent
import BitAgent.Wantbridge.Wanted
